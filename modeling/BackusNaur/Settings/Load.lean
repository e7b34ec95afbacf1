import BackusNaur.Files.Reading
import BackusNaur.Document.Toml

/-!
# Loading settings

Settings come from a file, in TOML if its name ends in `.toml` and in JSON otherwise, and the depth
bound can be replaced by the environment. The file's own depth bound is checked in any case.
-/

namespace BackusNaur

structure Environment where
  maxDepth : Option String := none
  logLevel : Option String := none
deriving DecidableEq, Repr

def DocumentFormat.read? (text : List Char) : DocumentFormat → Option Value
  | json => Json.read? (Text.unifyLineEnds text)
  | toml => Toml.read? text

namespace Settings

def fileNames : List String := ["bnfmatch.toml", ".bnfmatchrc"]

def isThere (d : Disk) (p : Path) : Except Failure Bool :=
  (d.holds p).mapError fun _ => .unexplained (.pathTooLong p.text)

/-- The settings file: the given one if it exists, else the first that `root` holds. -/
def locate (d : Disk) (root : Path) (given : Option Path) : Except Failure (Option Path) :=
  let candidates := match given with
    | some p => [p]
    | none => fileNames.map root.below
  candidates.findM? (isThere d)

def failure (source : Option String) (fault : SettingsFault) : Failure :=
  .ofDiagnostic { cause := .settings fault, path := source }

/-- Settings that cannot be read are reported without the place of the fault. -/
def unreadable (source : String) (reason : String) : Failure :=
  failure (some source) (.unreadable reason)

def formatOf (p : Path) : DocumentFormat := if p.suffix = ".toml" then .toml else .json

def readDocument (rt : Runtime) (d : Disk) (p : Path) : Except Failure Value := do
  let bytes ← (d.read p).mapError fun fault => unreadable p.text (fault.message p.text)
  let text ← (Encoding.utf8.decode bytes).mapError fun fault => unreadable p.text fault.message
  match (formatOf p).read? text with
  | some value => return value
  | none => .error (unreadable p.text (rt.malformed (formatOf p) text))

def depthOf (source : String) (value : Value) : Except Failure Int :=
  match value.toInteger with
  | .ok depth => .ok depth
  | .error .infinite => .error (.unexplained .infiniteDepth)
  | .error fault => .error (failure (some source) (.depthNotInteger fault.message))

/-- The encoding that a value names: any value is a name if it can be written, and one that says
nothing names the default. -/
def encodingOf (value : Value) : Except Failure CodePoints :=
  if !value.isTruthy then .ok "utf-8"
  else if value.hasLongNumber then .error (.unexplained .longNumber)
  else .ok value.plain

/-- The settings that a section asks for. What it does not name keeps its default. -/
def ofSection (source : String) (fields : List (CodePoints × Value)) :
    Except Failure Settings := do
  let depth ← match Value.find? "max_depth" fields with
    | some value => depthOf source value
    | none => .ok defaultMaxDepth
  (checkDepth depth (some source)).mapError .ofDiagnostic
  let encoding ← match Value.find? "encoding" fields with
    | some value => encodingOf value
    | none => .ok "utf-8"
  return { maxDepth := depth, encoding, source := some source }

def ofDocument (source : String) (document : Value) : Except Failure Settings :=
  match document with
  | .table fields =>
    match Value.find? "engine" fields with
    | none => ofSection source []
    | some (.table fields) => ofSection source fields
    | some other =>
      if other.isTruthy then .error (failure (some source) .engineNotTable) else ofSection source []
  | other => .error (.unexplained (.settingsNotTable other.kind))

def withEnvironment (s : Settings) (env : Environment) : Except Failure Settings :=
  match env.maxDepth.getD "" with
  | "" => .ok s
  | text =>
    match Text.readInt text with
    | .ok depth => (s.withDepth (some depth)).mapError .ofDiagnostic
    | .error _ => .error (failure none (.environmentDepth text))

def ofFile (rt : Runtime) (d : Disk) : Option Path → Except Failure Settings
  | none => .ok {}
  | some p => do ofDocument p.text (← readDocument rt d p)

/-- The settings of a run in the directory `root`. A settings file that was asked for must exist. -/
def load (rt : Runtime) (d : Disk) (env : Environment) (root : Path := {})
    (given : Option Path := none) : Except Failure Settings := do
  if '\x00' ∈ root.text.toList then .error (.unexplained .nulInPath)
  let found ← locate d (d.absolute root) given
  match given, found with
  | some p, none => .error (failure (some p.text) (.notFound p.text))
  | _, _ => withEnvironment (← ofFile rt d found) env

end Settings

end BackusNaur

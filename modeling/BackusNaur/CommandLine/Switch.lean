import BackusNaur.Text.Quoted

/-!
# Switches

A switch is an argument that starts with a dash. It stands for itself or takes a value, and every
part of the command line has switches of its own.
-/

namespace BackusNaur.CommandLine

inductive Key where
  | help
  | version
  | logLevel
  | config
  | verbose
  | dictionary
  | json
  | text
  | input
  | maxDepth
deriving DecidableEq, Repr

structure Switch where
  key : Key
  spellings : List String
  takesValue : Bool := false
deriving DecidableEq, Repr

namespace Switch

def help : Switch := { key := .help, spellings := ["-h", "--help"] }

def version : Switch := { key := .version, spellings := ["--version"] }

def logLevel : Switch := { key := .logLevel, spellings := ["--log-level"], takesValue := true }

def config : Switch := { key := .config, spellings := ["--config"], takesValue := true }

def verbose : Switch := { key := .verbose, spellings := ["--verbose"] }

def dictionary : Switch := { key := .dictionary, spellings := ["--dict"], takesValue := true }

def json : Switch := { key := .json, spellings := ["--json"] }

def text : Switch := { key := .text, spellings := ["--text"], takesValue := true }

def input : Switch := { key := .input, spellings := ["--input"], takesValue := true }

def maxDepth : Switch := { key := .maxDepth, spellings := ["--max-depth"], takesValue := true }

def title (s : Switch) : String := "/".intercalate s.spellings

def find? (switches : List Switch) (spelling : String) : Option Switch :=
  switches.find? (·.spellings.contains spelling)

def startingWith (switches : List Switch) (start : String) : List (String × Switch) :=
  switches.flatMap fun s =>
    (s.spellings.filter fun spelling => start.toList.isPrefixOf spelling.toList).map (·, s)

end Switch

inductive Misuse where
  /-- A shortened spelling that several switches could have. -/
  | ambiguous (written : String) (spellings : List String)
  | valueMissing (s : Switch)
  /-- A value written to a switch that takes none. -/
  | valueIgnored (s : Switch) (value : String)
  /-- A switch that cannot be given after another. -/
  | excluded (s other : Switch)
  | badChoice (argument value : String) (choices : List String)
  | badNumber (s : Switch) (value : String)
  | operandsMissing (names : List String)
  | unrecognized (words : List String)
deriving DecidableEq, Repr

def Misuse.message : Misuse → String
  | ambiguous written spellings =>
    s!"ambiguous option: {written} could match " ++ ", ".intercalate spellings
  | valueMissing s => s!"argument {s.title}: expected one argument"
  | valueIgnored s value =>
    s!"argument {s.title}: ignored explicit argument " ++ Text.quoted value
  | excluded s other => s!"argument {s.title}: not allowed with argument {other.title}"
  | badChoice argument value choices =>
    s!"argument {argument}: invalid choice: " ++ Text.quoted value ++ " (choose from "
      ++ ", ".intercalate (choices.map Text.quoted) ++ ")"
  | badNumber s value => s!"argument {s.title}: invalid int value: " ++ Text.quoted value
  | operandsMissing names =>
    "the following arguments are required: " ++ ", ".intercalate names
  | unrecognized words => "unrecognized arguments: " ++ " ".intercalate words

end BackusNaur.CommandLine

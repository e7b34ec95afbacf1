import BackusNaur.Definition
import BackusNaur.Matcher
import BackusNaur.Text.Quoted

/-!
# Diagnostics

A diagnostic tells a user what is wrong and where. Its cause fixes its wording, its code and its
usual hint; code and hint can be replaced.
-/

namespace BackusNaur

structure Location where
  path : Option String := none
  line : Option Int := none
deriving DecidableEq, Repr

def Location.describe (l : Location) : String :=
  match (l.path.getD "", l.line) with
  | ("", none) => "unknown location"
  | ("", some line) => s!"line {line}"
  | (path, none) => path
  | (path, some line) => s!"{path}:{line}"

inductive Topic where
  | general
  | settings
  | grammar
  | malformedDefinition
  | duplicateSymbol
  | unsupportedRecursion
  | unmatchedGroup
  | nestedGroups
  | emptyGrammar
  | unreadableFile
  | undefinedSymbols
  | matching
  | unknownStart
  | recursionLimit
deriving DecidableEq, Repr

def Topic.code : Topic → String
  | general => "BNF_ERROR"
  | settings => "CONFIG_ERROR"
  | grammar => "GRAMMAR_ERROR"
  | malformedDefinition => "MALFORMED_DEFINITION"
  | duplicateSymbol => "DUPLICATE_SYMBOL"
  | unsupportedRecursion => "UNSUPPORTED_RECURSION"
  | unmatchedGroup => "UNMATCHED_GROUP"
  | nestedGroups => "NESTED_GROUPS"
  | emptyGrammar => "EMPTY_GRAMMAR"
  | unreadableFile => "GRAMMAR_LOAD_ERROR"
  | undefinedSymbols => "UNDEFINED_SYMBOLS"
  | matching => "MATCH_ERROR"
  | unknownStart => "UNKNOWN_START_SYMBOL"
  | recursionLimit => "RECURSION_LIMIT"

namespace DefinitionFault

def topic : DefinitionFault → Topic
  | expectedDefinition | headNotSymbol _ | emptyBody _ | emptyAlternative => .malformedDefinition
  | duplicateSymbol .. => .duplicateSymbol
  | selfReference _ => .unsupportedRecursion
  | strayClose | unclosedGroup => .unmatchedGroup
  | nestedGroup => .nestedGroups
  | noDefinitions => .emptyGrammar

def message : DefinitionFault → String
  | expectedDefinition => "Expected a definition of the form '<symbol> ::= ...'."
  | headNotSymbol _ => "1st token of a definition must be enclosed in angle brackets."
  | duplicateSymbol name _ => s!"Symbol <{name}> already declared."
  | emptyBody name => s!"Too few tokens in definition of <{name}>."
  | selfReference _ => "Recursive definitions are currently unsupported."
  | emptyAlternative => "Empty alternative around '|'."
  | strayClose => "Closing brace \x7d without a matching \x7b."
  | unclosedGroup => "Mismatched brace group \x7b\x7d."
  | nestedGroup => "Currently only 1 level of brace groups \x7b\x7d is supported."
  | noDefinitions => "No definitions were recognized."

/-- What a head would be called in angle brackets: the text between the angle brackets that it
starts or ends with. -/
def suggestedName (head : String) : String :=
  let isAngle := fun c => c == '<' || c == '>'
  let inside := ((head.toList.dropWhile isAngle).reverse.dropWhile isAngle).reverse
  if inside.isEmpty then "name" else String.ofList inside

def hint : DefinitionFault → Option String
  | headNotSymbol head => some s!"Write <{suggestedName head}> {Token.define} ..."
  | duplicateSymbol name (some line) =>
    if line = 0 then none else some s!"<{name}> was first declared at line {line}"
  | selfReference name => some s!"<{name}> refers to itself"
  | _ => none

end DefinitionFault

namespace MatchFault

def topic : MatchFault → Topic
  | unknownStart .. => .unknownStart
  | recursionLimit _ => .recursionLimit
  | dangling _ => .matching

def message : MatchFault → String
  | unknownStart name _ => s!"Symbol <{name}> not defined."
  | recursionLimit limit => s!"Text cannot be matched - recursion too deep (limit {limit})."
  | dangling name => Text.quoted name

/-- The first five symbols that could have been meant. -/
def hint : MatchFault → Option String
  | unknownStart _ available =>
    if available.isEmpty then none
    else some ("Available symbols: " ++ ", ".intercalate (available.take 5))
  | _ => none

end MatchFault

inductive SettingsFault where
  | notFound (path : String)
  | unreadable (reason : String)
  | engineNotTable
  | depthNotInteger (reason : String)
  | depthNotPositive (depth : Int)
  /-- The environment asks for a depth that is no integer. -/
  | environmentDepth (text : String)
deriving DecidableEq, Repr

def SettingsFault.message : SettingsFault → String
  | notFound path => s!"Config file not found: {path}"
  | unreadable reason => s!"Cannot read config: {reason}"
  | engineNotTable => "[engine] must be a table"
  | depthNotInteger reason => s!"max_depth must be an integer: {reason}"
  | depthNotPositive depth => s!"max_depth must be a positive integer, got {depth}"
  | environmentDepth text =>
    "BNFMATCH_MAX_DEPTH must be an integer, got " ++ Text.quoted text

inductive Cause where
  | definition (fault : DefinitionFault)
  | undefinedSymbols (names : List String)
  | matching (fault : MatchFault)
  | settings (fault : SettingsFault)
  /-- A file that cannot be read, by the last part of its path. -/
  | unreadableFile (name : String)
  /-- A message in words of its own. -/
  | stated (topic : Topic) (message : String)
deriving DecidableEq, Repr

namespace Cause

def topic : Cause → Topic
  | definition fault => fault.topic
  | undefinedSymbols _ => .undefinedSymbols
  | matching fault => fault.topic
  | settings _ => .settings
  | unreadableFile _ => .unreadableFile
  | stated topic _ => topic

def message : Cause → String
  | definition fault => fault.message
  | undefinedSymbols names =>
    "Undefined symbol(s): " ++ ", ".intercalate (names.map fun name => s!"<{name}>")
  | matching fault => fault.message
  | settings fault => fault.message
  | unreadableFile name => s!"Error loading file. Cannot load file: {name}"
  | stated _ message => message

def hint : Cause → Option String
  | definition fault => fault.hint
  | undefinedSymbols _ => some "Maybe you should load some dictionaries?"
  | matching fault => fault.hint
  | settings _ | unreadableFile _ | stated .. => none

end Cause

/-- The place is kept twice, by itself and as a location. -/
structure Diagnostic where
  cause : Cause
  path : Option String := none
  line : Option Int := none
  location : Location := ⟨path, line⟩
  code : String := cause.topic.code
  hint : Option String := cause.hint
deriving DecidableEq, Repr

namespace Diagnostic

def ofLocatedFault (path : Option String) (f : LocatedFault) : Diagnostic where
  cause := .definition f.fault
  path := path
  line := f.line.map fun line => (line : Int)

def message (d : Diagnostic) : String :=
  match d.line with
  | some line => s!"Line {line}: {d.cause.message}"
  | none => d.cause.message

/-- The diagnostic in one line: what is wrong, place and code in parentheses, and the hint. What is
empty is left out. -/
def format (d : Diagnostic) : String :=
  let place := d.location.describe
  let notes := (if place = "unknown location" then [] else [place])
    ++ if d.code.isEmpty then [] else [d.code]
  let text := d.cause.message
    ++ if notes.isEmpty then "" else " (" ++ "; ".intercalate notes ++ ")"
  let hint := d.hint.getD ""
  let parts := [text, if hint.isEmpty then "" else s!"Hint: {hint}"]
  " ".intercalate (parts.filter fun part => !part.isEmpty)

end Diagnostic

end BackusNaur

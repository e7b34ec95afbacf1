import BackusNaur.CommandLine.Form
import BackusNaur.Text.Lower

/-!
# Invocations

An invocation is what the arguments of the program ask for: a command with its own settings, and
what holds for every command. Arguments that ask for help or the version, or that cannot be taken,
make no invocation. A lost argument is part of an invocation until it is used.
-/

namespace BackusNaur.CommandLine

inductive LogLevel where
  | debug
  | info
  | warning
  | error
deriving DecidableEq, Repr

namespace LogLevel

def names : List (String × LogLevel) :=
  [("debug", debug), ("info", info), ("warn", warning), ("warning", warning), ("error", error)]

def ofName? (name : String) : Option LogLevel := List.lookup name names

end LogLevel

inductive InputSource where
  | given (text : Argument)
  | standardInput
  | file (path : Argument)
deriving DecidableEq, Repr

def InputSource.ofPath (path : Argument) : InputSource :=
  if path = some "-" then standardInput else file path

structure GrammarFiles where
  grammar : Argument
  dictionaries : List Argument
deriving DecidableEq, Repr

inductive DepthRequest where
  | unset
  | bound (n : Int)
  | lost
deriving DecidableEq, Repr

structure MatchRequest where
  files : GrammarFiles
  symbol : Argument
  input : Option InputSource
  maxDepth : DepthRequest
  json : Bool
deriving DecidableEq, Repr

inductive Command where
  | symbols (files : GrammarFiles) (json : Bool)
  | check (files : GrammarFiles)
  | matching (request : MatchRequest)
deriving DecidableEq, Repr

structure Invocation where
  logLevel : Option LogLevel
  config : Option String
  verbose : Bool
  command : Command
deriving DecidableEq, Repr

inductive Stop where
  | help
  | version
  | misuse (m : Misuse)
deriving DecidableEq, Repr

structure Rejection where
  form : Form
  stop : Stop
deriving DecidableEq, Repr

structure Draft where
  logLevel : Option LogLevel := none
  config : Option String := none
  verbose : Bool := false
  dictionaries : List Argument := []
  json : Bool := false
  input : Option InputSource := none
  maxDepth : DepthRequest := .unset
  operands : List Argument := []
  leftOver : List String := []
  /-- The name of a command and the words after it, if there is one. -/
  command : List String := []

namespace Draft

/-- The draft with one more switch. Of a repeated switch the last value counts, except that
dictionaries add up; a text and an input file exclude each other. A lost level or settings file is
as good as none. -/
def set (d : Draft) (s : Switch) (value : Argument) : Except Stop Draft :=
  match s.key with
  | .help => .error .help
  | .version => .error .version
  | .logLevel =>
    match value with
    | none => .ok { d with logLevel := none }
    | some name => match LogLevel.ofName? name with
      | some level => .ok { d with logLevel := some level }
      | none => .error (.misuse (.badChoice s.title name (LogLevel.names.map Prod.fst)))
  | .config => .ok { d with config := value }
  | .verbose => .ok { d with verbose := true }
  | .dictionary => .ok { d with dictionaries := d.dictionaries ++ [value] }
  | .json => .ok { d with json := true }
  | .text =>
    match d.input with
    | none | some (.given _) => .ok { d with input := some (.given value) }
    | some _ => .error (.misuse (.excluded s .input))
  | .input =>
    match d.input with
    | some (.given _) => .error (.misuse (.excluded s .text))
    | _ => .ok { d with input := some (.ofPath value) }
  | .maxDepth =>
    match value with
    | none => .ok { d with maxDepth := .lost }
    | some numeral => match Text.readInt numeral with
      | .ok depth => .ok { d with maxDepth := .bound depth }
      | .error _ => .error (.misuse (.badNumber s numeral))

def take (d : Draft) : Step → Except Stop Draft
  | .switch s value => d.set s value
  | .operand text => .ok { d with operands := d.operands ++ [text] }
  | .command words => .ok { d with command := words }
  | .leftOver text => .ok { d with leftOver := d.leftOver ++ [text] }
  | .misuse m => .error (.misuse m)

def ofArguments (keepsDashes : Bool) (form : Form) (arguments : List String) :
    Except Rejection Draft :=
  match Word.ofArguments form.switches arguments with
  | .error m => .error ⟨form, .misuse m⟩
  | .ok words =>
    ((Step.ofWords keepsDashes form.switches form.wanted words).foldlM take {}).mapError (⟨form, ·⟩)

def command? (d : Draft) : CommandName → Option Command
  | .symbols => match d.operands with
    | [grammar] => some (.symbols ⟨grammar, d.dictionaries⟩ d.json)
    | _ => none
  | .check => match d.operands with
    | [grammar] => some (.check ⟨grammar, d.dictionaries⟩)
    | _ => none
  | .matching => match d.operands with
    | [grammar, symbol] =>
      some (.matching ⟨⟨grammar, d.dictionaries⟩, symbol, d.input, d.maxDepth, d.json⟩)
    | _ => none

end Draft

def Command.ofArguments (keepsDashes : Bool) (name : String) (arguments : List String) :
    Except Rejection (Command × List String) := do
  let some commandName := CommandName.ofText? name
    | .error ⟨.general, .misuse (.badChoice "command" name (CommandName.all.map CommandName.text))⟩
  let form := Form.command commandName
  let draft ← Draft.ofArguments keepsDashes form arguments
  match draft.command? commandName with
  | some command => return (command, draft.leftOver)
  | none =>
    .error ⟨form, .misuse (.operandsMissing (form.operands.drop draft.operands.length))⟩

def Invocation.ofArguments (keepsDashes : Bool) (arguments : List String) :
    Except Rejection Invocation := do
  let draft ← Draft.ofArguments keepsDashes .general arguments
  match draft.command with
  | [] => .error ⟨.general, .misuse (.operandsMissing Form.general.operands)⟩
  | name :: rest =>
    let (command, leftOver) ← Command.ofArguments keepsDashes name rest
    match draft.leftOver ++ leftOver with
    | [] => return ⟨draft.logLevel, draft.config, draft.verbose, command⟩
    | words => .error ⟨.general, .misuse (.unrecognized words)⟩

end BackusNaur.CommandLine

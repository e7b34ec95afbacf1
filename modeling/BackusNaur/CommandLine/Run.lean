import BackusNaur.CommandLine.Invocation
import BackusNaur.CommandLine.Outcome
import BackusNaur.Document.Json.Printer
import BackusNaur.Report
import BackusNaur.Settings.Load

/-!
# Runs

A run of the program takes its arguments, loads the settings and carries out a command. A match
reads its text before the grammar; its outcome shows the result of matching the text against the
symbol and nothing else.
-/

namespace BackusNaur.CommandLine

def version : String := "0.3.0"

structure Surroundings where
  runtime : Runtime
  disk : Disk
  environment : Environment := {}
  /-- The text of the standard input. -/
  input : String := ""

def Rejection.outcome (r : Rejection) : Outcome :=
  match r.stop with
  | .help => { ending := .exit .success, output := r.form.help }
  | .version => { ending := .exit .success, output := s!"{r.form.program} {version}\n" }
  | .misuse m =>
    { ending := .exit .failure
      errors := r.form.usage ++ s!"{r.form.program}: error: {m.message}\n" }

/-- The level that the environment asks for; a level of another name is none. -/
def LogLevel.ofEnvironment (e : Environment) : LogLevel :=
  (e.logLevel.bind fun name => ofName? (Text.lower name)).getD warning

def Argument.get (a : Argument) (what : Lost) : Except Failure String :=
  match a with
  | some text => .ok text
  | none => .error (.unexplained (.lost what))

/-- The sources of a command. Each path is looked at when those before it have been read. -/
def GrammarFiles.read (f : GrammarFiles) (w : Surroundings) (s : Settings) :
    Except Failure Sources := do
  let source (path : Argument) : Except Failure Source := do
    w.disk.readSource w.runtime.codecs s.encoding (← path.get .path)
  let grammar ← source f.grammar
  return ⟨grammar, ← f.dictionaries.mapM source⟩

def GrammarFiles.load (f : GrammarFiles) (w : Surroundings) (s : Settings) :
    Except Failure Grammar := do
  Grammar.ofSourcesIn w.runtime.room (← f.read w s) s

theorem GrammarFiles.load_of_texts (w : Surroundings) (path : String) (dictionaries : List String)
    (s : Settings) : load ⟨some path, dictionaries.map some⟩ w s =
      Grammar.load w.runtime w.disk path dictionaries s := by
  simp only [load, read, Grammar.load, Disk.readSources, Argument.get, List.mapM_map,
    Function.comp_def, bind_assoc, pure_bind]
  rfl

def GrammarFiles.log (f : GrammarFiles) (w : Surroundings) (s : Settings) : List LogEntry :=
  match f.read w s with
  | .ok sources => Grammar.loadLog w.runtime.room sources
  | .error _ => []

def InputSource.read (i : InputSource) (w : Surroundings) (encoding : CodePoints) :
    Except Failure Argument :=
  match i with
  | given text => .ok text
  | standardInput => .ok (some w.input)
  | file path => do
    let path ← path.get .path
    return some (← w.disk.readText w.runtime.codecs (Path.ofText path) encoding)

namespace MatchRequest

variable (m : MatchRequest)

def refusal (message : String) (hint : Option String := none) : Failure :=
  .reported (.command { message, hint })

def settings (s : Settings) : Except Failure Settings :=
  match m.maxDepth with
  | .unset => .ok s
  | .lost => .error (.unexplained (.lost .depth))
  | .bound depth =>
    if depth < 1 then .error (refusal s!"--max-depth must be positive, got {depth}")
    else (s.withDepth (some depth)).mapError .ofDiagnostic

def prepare (w : Surroundings) (s : Settings) : Except Failure (Settings × Argument) := do
  let some input := m.input
    | .error (refusal "No input given"
        (some "Pass --text TEXT or --input FILE (use '-' for stdin)"))
  let s ← m.settings s
  return (s, ← input.read w s.encoding)

def resultIn (stack : Nat) (g : Grammar) (text : Argument) : Except Failure MatchResult := do
  let text ← text.get .text
  let symbol ← m.symbol.get .symbol
  (g.run stack symbol text).mapError .ofMatchFault

def result (w : Surroundings) (s : Settings) : Except Failure MatchResult := do
  let (s, text) ← m.prepare w s
  let g ← m.files.load w s
  m.resultIn w.runtime.stack g text

def display (symbol : String) (r : MatchResult) : String :=
  if m.json then Json.render (r.toValue symbol) ++ "\n"
  else
    let verdict := if r.matched then "MATCHED" else "NOT MATCHED"
    let report := r.report
    s!"<{symbol}>: {verdict}\n" ++ if report.isEmpty then "" else "\n" ++ report

def answer (w : Surroundings) (s : Settings) : Except Failure (Exit × String) := do
  let r ← m.result w s
  return (if r.matched then .success else .noMatch, m.display (← m.symbol.get .symbol) r)

def log (w : Surroundings) (s : Settings) : List LogEntry :=
  match m.prepare w s with
  | .error _ => []
  | .ok (s, text) =>
    m.files.log w s ++ match m.files.load w s, text, m.symbol with
      | .ok g, some text, some symbol =>
        g.matcher.log w.runtime.stack symbol (Text.wordsOf text)
      | _, _, _ => []

end MatchRequest

namespace Command

def answer (w : Surroundings) (s : Settings) : Command → Except Failure (Exit × String)
  | symbols files json => do
    let g ← files.load w s
    if json then
      return (.success, Json.render (.ofTexts g.names) false ++ "\n")
    else
      let listing := g.listing (← files.grammar.get .path)
      let table ← (w.runtime.table listing).mapError fun reason => .unexplained (.markup reason)
      return (.success, table)
  | check files => do
    let g ← files.load w s
    return (.success, s!"Successfully loaded Backus-Naur form! ({g.definitions.length} symbols)\n")
  | matching request => request.answer w s

def log (w : Surroundings) (s : Settings) : Command → List LogEntry
  | symbols files _ | check files => files.log w s
  | matching request => request.log w s

def paths : Command → List String
  | symbols files _ | check files => (files.grammar :: files.dictionaries).filterMap id
  | matching request =>
    let input := match request.input with
      | some (.file path) => [path]
      | _ => []
    (input ++ request.files.grammar :: request.files.dictionaries).filterMap id

end Command

namespace Invocation

variable (i : Invocation)

/-- The settings file that was asked for. An empty name asks for none. -/
def settingsFile : Option Path :=
  match i.config.getD "" with
  | "" => none
  | path => some (.ofText path)

def paths : List Path :=
  i.settingsFile.toList ++ Settings.fileNames.map .ofText ++ i.command.paths.map .ofText

def readsInput : Bool :=
  match i.command with
  | .matching request => request.input == some .standardInput
  | _ => false

def isLogged (w : Surroundings) : Bool :=
  i.logLevel.getD (.ofEnvironment w.environment) == .debug

def outcome (w : Surroundings) : Outcome :=
  match Settings.load w.runtime w.disk w.environment {} i.settingsFile with
  | .error failure => .ofFailure w.runtime i.verbose failure
  | .ok s =>
    { Outcome.ofAnswer w.runtime i.verbose (i.command.answer w s) with
      log := if i.isLogged w then i.command.log w s else [] }

end Invocation

def run (arguments : List String) (w : Surroundings) : Outcome :=
  match Invocation.ofArguments w.runtime.keepsDashes arguments with
  | .ok i => i.outcome w
  | .error r => r.outcome

end BackusNaur.CommandLine

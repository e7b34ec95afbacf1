import BackusNaur.Grammar
import BackusNaur.Overflow
import BackusNaur.Sources

/-!
# Logs

A log tells step by step what is done with a grammar: the sources that are combined, each
definition that can be read, the checks of the references, the grammar, and each match.
-/

namespace BackusNaur

inductive Activity where
  | loading
  | reading
  | checking
  | building
  | matching
deriving DecidableEq, Repr

def Activity.name : Activity → String
  | loading => "bnfmatch.loader"
  | reading => "bnfmatch.grammar.parser"
  | checking => "bnfmatch.grammar.validator"
  | building => "bnfmatch.engine"
  | matching => "bnfmatch.matcher"

structure LogEntry where
  activity : Activity
  message : String
deriving DecidableEq, Repr

def LogEntry.render (time : String) (e : LogEntry) : String :=
  s!"{time} - {e.activity.name} - DEBUG - {e.message}"

namespace Grammar

/-- What is told of building a grammar from definitions. The references are checked for the grammar
and once more for its matcher. -/
def buildLog (path : String) (definitions : List Definition) : List LogEntry :=
  match SymbolTable.undefinedNames (tableOf definitions) with
  | [] =>
    let checked : LogEntry := ⟨.checking, s!"Validated {definitions.length} definitions"⟩
    [checked, checked,
      ⟨.building, s!"Built grammar with {definitions.length} symbols from {path}"⟩]
  | names => [⟨.checking, "Validation failed, undefined: " ++ Text.quotedList names⟩]

def readingLog (definitions : List Definition) : List LogEntry :=
  definitions.map fun d => ⟨.reading, s!"Parsed <{d.name}> at line {d.line}: {d.node.render}"⟩

/-- What is told of loading a grammar from its sources, up to a definition that there is no room
for. -/
def loadLog (room : Room) (s : Sources) : List LogEntry :=
  ⟨.loading, s!"Loading {s.grammar.path} with {s.dictionaries.length} dictionaries"⟩
    :: match Reading.overflow? room s.text with
      | some definitions => readingLog definitions
      | none =>
        let reading := Reading.ofText s.text
        readingLog reading.definitions ++ match reading.fault with
          | some _ => []
          | none => buildLog s.grammar.path reading.definitions

end Grammar

def Matcher.log (m : Matcher) (stack : Nat) (symbol : String) (tokens : List String) :
    List LogEntry :=
  match m.table.find? symbol with
  | none => []
  | some node =>
    match m.descend stack node tokens with
    | .error .noFrame =>
      [⟨.matching, s!"Match of <{symbol}> hit the interpreter recursion limit"⟩]
    | .error (.undefined _) => []
    | .ok (stop, notes) =>
      if notes.tooDeep then [⟨.matching, s!"Match of <{symbol}> exceeded depth {m.maxDepth}"⟩]
      else
        let r := Reach.result tokens ⟨stop, notes.spans⟩
        let outcome := if r.matched then "True" else "False"
        [⟨.matching,
          s!"Matched <{symbol}> against {r.tokens.length} tokens: end={r.stop} matched={outcome}"⟩]

end BackusNaur

import BackusNaur.Settings

/-!
# Grammars

A grammar is the definitions of a text, sorted by name, with a matcher over their closed table.
-/

namespace BackusNaur

structure Grammar where
  path : Option String
  definitions : List Definition
  matcher : Matcher

namespace Grammar

def sorted (definitions : List Definition) : List Definition :=
  definitions.mergeSort fun a b => a.name ≤ b.name

def tableOf (definitions : List Definition) : SymbolTable :=
  definitions.map fun d => (d.name, d.node)

def ofDefinitions (path : Option String) (maxDepth : Int) (definitions : List Definition) :
    Except (List String) Grammar := do
  let definitions := sorted definitions
  return ⟨path, definitions, ← Matcher.ofTable (tableOf definitions) maxDepth⟩

def undefinedDiagnostic (path : Option String) (names : List String) : Diagnostic :=
  { cause := .undefinedSymbols names, path }

def ofText (text : String) (path : Option String := none) (settings : Settings := {}) :
    Except Diagnostic Grammar := do
  let definitions ← (Definition.readAll text).mapError (Diagnostic.ofLocatedFault path)
  (ofDefinitions path settings.maxDepth definitions).mapError (undefinedDiagnostic path)

variable (g : Grammar)

def names : List String := g.definitions.map Definition.name

def find? (name : String) : Option Definition := g.definitions.find? (·.name == name)

def describe : String := "Grammar(symbols=" ++ Text.quotedList g.names ++ ")"

def run (stack : Nat) (symbol text : String) : Except MatchFault MatchResult :=
  g.matcher.runText stack symbol text

end Grammar

end BackusNaur

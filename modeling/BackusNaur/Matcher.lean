import BackusNaur.Span
import BackusNaur.Text.Blank

/-!
# Matching

A matcher is a closed symbol table with a bound on the depth of its searches. Matching a list of
tokens against a symbol either has a result or a fault: the symbol is unknown, or the search needs
more depth than the bound allows or more frames than the stack has left.
-/

namespace BackusNaur

def defaultMaxDepth : Int := 50

/-- What a match found. `stop` is the number of tokens matched, or -1 where nothing matched. -/
structure MatchResult where
  matched : Bool
  stop : Int
  tokens : List String
  spans : SpanTable
deriving DecidableEq, Repr

inductive MatchFault where
  | unknownStart (name : String) (available : List String)
  | recursionLimit (limit : Int)
  /-- A reference without a definition, which no closed table holds. -/
  | dangling (name : String)
deriving DecidableEq, Repr

def Reach.result (tokens : List String) (r : Reach) : MatchResult where
  matched := r.stop = some tokens.length
  stop := match r.stop with
    | some stop => stop
    | none => -1
  tokens := tokens
  spans := SpanTable.ofSpans tokens r.spans

/-- A closed table and the greatest depth that its searches may reach. -/
structure Matcher where
  table : SymbolTable
  maxDepth : Int
  closed : table.undefinedNames = []

namespace Matcher

def ofTable (table : SymbolTable) (maxDepth : Int := defaultMaxDepth) :
    Except (List String) Matcher :=
  if closed : table.undefinedNames = [] then .ok ⟨table, maxDepth, closed⟩
  else .error table.undefinedNames

/-- Searches for a node from the start of the input. `stack` is the number of frames that the stack
has left. -/
def descend (m : Matcher) (stack : Nat) (node : Node) (tokens : List String) :
    Except Halt (Option Nat × Notes) :=
  (Search.node m.table (tokens.map Text.lower) stack (m.maxDepth + 1).toNat node 0).run {}

def search (m : Matcher) (stack : Nat) (start : String) (tokens : List String) :
    Except MatchFault Reach :=
  match m.table.find? start with
  | none => .error (.unknownStart start (Text.sortedSet m.table.names))
  | some node =>
    match m.descend stack node tokens with
    -- The bound is deeper than the stack allows, and is what the fault tells of all the same.
    | .error .noFrame => .error (.recursionLimit m.maxDepth)
    | .error (.undefined name) => .error (.dangling name)
    | .ok (stop, notes) =>
      if notes.tooDeep then .error (.recursionLimit m.maxDepth) else .ok ⟨stop, notes.spans⟩

/-- Matches tokens against a symbol; the match succeeds only if it takes in all of them. -/
def run (m : Matcher) (stack : Nat) (start : String) (tokens : List String) :
    Except MatchFault MatchResult :=
  (m.search stack start tokens).map (Reach.result tokens)

def runText (m : Matcher) (stack : Nat) (start text : String) : Except MatchFault MatchResult :=
  m.run stack start (Text.wordsOf text)

end Matcher

end BackusNaur

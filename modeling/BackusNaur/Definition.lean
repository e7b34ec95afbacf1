import BackusNaur.Node
import BackusNaur.Token.Line

/-!
# Definitions

A grammar text is a list of blocks. A block starts at a line whose second token is `::=` and takes
in the lines after it up to the next such line. Its first token names a symbol, and the tokens
after `::=` are cut at the bars into alternatives, each a row of runs and braced groups.

Reading stops at the first block that is no definition, with the reason and that block's line.
-/

namespace BackusNaur

inductive DefinitionFault where
  /-- The first line that is not blank does not start a definition. -/
  | expectedDefinition
  /-- What stands before `::=` is not a symbol in angle brackets. -/
  | headNotSymbol (head : String)
  | duplicateSymbol (name : String) (firstLine : Option Int)
  /-- Nothing follows `::=`. -/
  | emptyBody (name : String)
  | selfReference (name : String)
  | emptyAlternative
  /-- A closing brace outside any group. -/
  | strayClose
  /-- An opening brace whose alternative holds no closing brace after it. -/
  | unclosedGroup
  /-- An opening brace inside a group. -/
  | nestedGroup
  | noDefinitions
deriving DecidableEq, Repr

namespace Segment

def itemOfToken (t : Token) : Item :=
  match t.symbol? with
  | some name => .reference name
  | none => .literal t.text

/-- The repetition mark at the start of what follows a closing brace, and the rest. A group
without a mark repeats zero or more times. -/
def takeQuantifier : List Token → Quantifier × List Token
  | [] => (.zeroOrMore, [])
  | t :: rest =>
    match if t.quoted then none else Quantifier.ofText? t.text with
    | some q => (q, rest)
    | none => (.zeroOrMore, t :: rest)

theorem length_takeQuantifier (ts : List Token) : (takeQuantifier ts).2.length ≤ ts.length := by
  cases ts with
  | nil => simp [takeQuantifier]
  | cons t rest => simp only [takeQuantifier]; split <;> simp

def isOpen (t : Token) : Bool := t.isOperator "\x7b"

def isClose (t : Token) : Bool := t.isOperator "\x7d"

def isPlain (t : Token) : Bool := !(isOpen t || isClose t)

def ofTokens : List Token → Except DefinitionFault (List Segment)
  | [] => .ok []
  | t :: rest =>
    if isClose t then .error .strayClose
    else if isOpen t then
      match _found : rest.dropWhile (!isClose ·) with
      | [] => .error .unclosedGroup
      | _ :: after =>
        let inside := rest.takeWhile (!isClose ·)
        if inside.any isOpen then .error .nestedGroup
        else do
          let tail := takeQuantifier after
          return .group (inside.map itemOfToken) tail.1 :: (← ofTokens tail.2)
    else do
      let run := t :: rest.takeWhile isPlain
      return .run (run.map itemOfToken) :: (← ofTokens (rest.dropWhile isPlain))
termination_by ts => ts.length
decreasing_by
  · have dropped : (rest.dropWhile (!isClose ·)).length ≤ rest.length :=
      (List.dropWhile_suffix _).length_le
    have := length_takeQuantifier after
    simp only [_found, List.length_cons] at dropped
    simp only [List.length_cons]
    omega
  · have dropped : (rest.dropWhile isPlain).length ≤ rest.length :=
      (List.dropWhile_suffix _).length_le
    simp
    omega

end Segment

namespace Node

def isBar (t : Token) : Bool := t.isOperator "|"

def ofAlternative (ts : List Token) : Except DefinitionFault Node :=
  if ts.isEmpty then .error .emptyAlternative else .sequence <$> Segment.ofTokens ts

/-- The right-hand side that tokens write: its alternatives are joined from the left. -/
def ofTokens (ts : List Token) : Except DefinitionFault Node := do
  match ← (pieces isBar ts).mapM ofAlternative with
  | [] => .error .emptyAlternative
  | first :: others => return others.foldl .alternation first

end Node

structure Definition where
  name : String
  node : Node
  line : Nat
deriving DecidableEq, Repr

/-- A fault and the line of the block that has it; a text without any definition has no such
line. -/
structure LocatedFault where
  fault : DefinitionFault
  line : Option Nat
deriving DecidableEq, Repr

/-- The lines of one definition: where they start, what stands before `::=` and what after it. -/
structure Block where
  line : Nat
  head : Token
  body : List Token
deriving DecidableEq, Repr

namespace Block

def ofLine? (line : Line) : Option Block :=
  match line.tokens with
  | head :: define :: body =>
    if define.isOperator Token.define then some ⟨line.number, head, body⟩ else none
  | _ => none

def cut : List Line → List Line × List Block
  | [] => ([], [])
  | line :: rest =>
    let (loose, blocks) := cut rest
    match ofLine? line with
    | none => (line :: loose, blocks)
    | some block => ([], { block with body := block.body ++ loose.flatMap Line.tokens } :: blocks)

/-- The definition that a block writes, where `known` are the definitions before it. -/
def define (known : List Definition) (block : Block) : Except DefinitionFault Definition := do
  let some name := block.head.symbol? | .error (.headNotSymbol block.head.text)
  if let some first := known.find? (·.name == name) then
    .error (.duplicateSymbol name (some first.line))
  if block.body.isEmpty then
    .error (.emptyBody name)
  if block.body.any (·.isOperator block.head.text) then
    .error (.selfReference name)
  return ⟨name, ← Node.ofTokens block.body, block.line⟩

end Block

/-- How far a grammar text could be read: the definitions before the first fault, and that fault. -/
structure Reading where
  definitions : List Definition
  fault : Option LocatedFault
deriving DecidableEq, Repr

namespace Reading

/-- Reads blocks in order, after the definitions `known`, until one has a fault. -/
def ofBlocks (known : List Definition) : List Block → Reading
  | [] => ⟨known, none⟩
  | block :: rest =>
    match block.define known with
    | .error fault => ⟨known, some ⟨fault, some block.line⟩⟩
    | .ok definition => ofBlocks (known ++ [definition]) rest

def ofLines (lines : List Line) : Reading :=
  match Block.cut lines with
  | (line :: _, _) => ⟨[], some ⟨.expectedDefinition, some line.number⟩⟩
  | ([], []) => ⟨[], some ⟨.noDefinitions, none⟩⟩
  | ([], blocks) => ofBlocks [] blocks

def ofText (text : String) : Reading := ofLines (Line.ofText text)

def result (r : Reading) : Except LocatedFault (List Definition) :=
  match r.fault with
  | none => .ok r.definitions
  | some fault => .error fault

end Reading

def Definition.readAll (text : String) : Except LocatedFault (List Definition) :=
  (Reading.ofText text).result

end BackusNaur

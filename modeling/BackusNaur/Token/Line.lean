import BackusNaur.Pieces
import BackusNaur.Text.Lines
import BackusNaur.Token

/-!
# The tokens of a line

A line is cut at its double quotes into pieces that are, in turn, bare and quoted. A quoted piece
is one token, whatever it holds. A bare piece is cut into words, after square brackets have become
braces, braces have been set apart and free-standing bars have been set apart.
-/

namespace BackusNaur

namespace Token

/-- A brace with space around it; `[ X ]` is written `{ X } ?`. -/
def spaceBrace : Char → List Char
  | '{' | '[' => [' ', '{', ' ']
  | '}' => [' ', '}', ' ']
  | ']' => [' ', '}', ' ', '?', ' ']
  | c => [c]

/-- Whether a bar beside `c` can stand alone: `c` is no ASCII letter, digit or underscore, no quote
and no angle bracket. -/
def freesBar (c : Char) : Bool :=
  !(c.isAlphanum || c == '_' || c == '"' || c == '\'' || c == '<' || c == '>')

/-- Sets apart every bar that has a neighbour on both sides, each of which lets it stand alone.
`before` is the character before the text. -/
def spaceBars (before : Option Char) : List Char → List Char
  | [] => []
  | c :: rest =>
    (if c == '|' && before.any freesBar && rest.head?.any freesBar then [' ', '|', ' '] else [c])
      ++ spaceBars (some c) rest

def ofBare (piece : List Char) : List Token :=
  (Text.words (spaceBars none (piece.flatMap spaceBrace))).map fun word =>
    ⟨String.ofList word, false⟩

/-- The tokens of a line's pieces, bare ones and quoted ones in turn. A last quoted piece that no
quote closes is a token only if there is something in it. -/
def ofPieces : List (List Char) → List Token
  | [] => []
  | [bare] => ofBare bare
  | [bare, rest] => ofBare bare ++ if rest.isEmpty then [] else [⟨String.ofList rest, true⟩]
  | bare :: quoted :: rest => ofBare bare ++ ⟨String.ofList quoted, true⟩ :: ofPieces rest

def ofLine (line : List Char) : List Token := ofPieces (pieces (· == '"') line)

end Token

/-- A line of a grammar text that is not blank: its number, from one, and its tokens. -/
structure Line where
  number : Nat
  tokens : List Token
deriving DecidableEq, Repr

/-- The lines of a grammar text that are not blank. -/
def Line.ofText (text : String) : List Line :=
  ((Text.lines text.toList).zipIdx 1).filterMap fun (line, number) =>
    let line := Text.trim line
    if line.isEmpty then none else some ⟨number, Token.ofLine line⟩

end BackusNaur

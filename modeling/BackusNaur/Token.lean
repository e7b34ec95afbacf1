/-!
# Tokens of a grammar text

A token is a stretch of text that was quoted or not. Only an unquoted token can be an operator or
a symbol in angle brackets; a quoted one always stands for itself.
-/

namespace BackusNaur

structure Token where
  text : String
  quoted : Bool := false
deriving DecidableEq, Repr

namespace Token

/-- The operator that separates a definition's symbol from its right-hand side. -/
abbrev define := "::="

def insideAngles? : List Char → Option (List Char)
  | '<' :: rest => if rest.getLast? = some '>' then some rest.dropLast else none
  | _ => none

/-- The name of the symbol that a token writes, if it is an unquoted `<name>`. -/
def symbol? (t : Token) : Option String :=
  if t.quoted then none else (insideAngles? t.text.toList).map String.ofList

def isSymbol (t : Token) : Bool := t.symbol?.isSome

def isOperator (t : Token) (op : String) : Bool := !t.quoted && t.text == op

def render (t : Token) : String := if t.quoted then s!"\"{t.text}\"" else t.text

theorem isOperator_iff {t : Token} {op : String} : t.isOperator op = true ↔ t = ⟨op, false⟩ := by
  cases t with
  | mk text quoted => cases quoted <;> simp [isOperator]

end Token

end BackusNaur

/-!
# Right-hand sides

A node is an alternation of two nodes or a sequence of segments. A segment is a flat run of items
or a braced group with a repetition mark. An item is a literal, compared with one input token
without regard to case, or a reference to a symbol.
-/

namespace BackusNaur

inductive Quantifier where
  | zeroOrMore
  | oneOrMore
  | optional
deriving DecidableEq, Repr

namespace Quantifier

def render : Quantifier → String
  | zeroOrMore => "*"
  | oneOrMore => "+"
  | optional => "?"

def ofText? (text : String) : Option Quantifier :=
  if text = "*" then some zeroOrMore
  else if text = "+" then some oneOrMore
  else if text = "?" then some optional
  else none

theorem ofText?_eq_some_iff {text : String} {q : Quantifier} :
    ofText? text = some q ↔ text = q.render := by
  unfold ofText?
  cases q <;> (repeat' split) <;> simp_all [render]

end Quantifier

inductive Item where
  | literal (text : String)
  | reference (name : String)
deriving DecidableEq, Repr

def Item.render : Item → String
  | literal text => s!"\"{text}\""
  | reference name => s!"<{name}>"

def Item.reference? : Item → Option String
  | literal _ => none
  | reference name => some name

inductive Segment where
  | run (items : List Item)
  | group (items : List Item) (quantifier : Quantifier)
deriving DecidableEq, Repr

namespace Segment

def items : Segment → List Item
  | run items => items
  | group items _ => items

def renderItems (items : List Item) : String := " ".intercalate (items.map Item.render)

def render : Segment → String
  | run items => renderItems items
  | group items quantifier => "\x7b " ++ renderItems items ++ " \x7d" ++ quantifier.render

end Segment

inductive Node where
  | alternation (left right : Node)
  | sequence (segments : List Segment)
deriving DecidableEq, Repr, Inhabited

namespace Node

/-- The node as it is written in a grammar; segments that write nothing take no space. -/
def render : Node → String
  | alternation left right => left.render ++ " | " ++ right.render
  | sequence segments => " ".intercalate ((segments.map Segment.render).filter fun s => !s.isEmpty)

/-- How many alternations lie within each other, at most. -/
def nesting : Node → Nat
  | alternation left right => max left.nesting right.nesting + 1
  | sequence _ => 0

def references : Node → List String
  | alternation left right => left.references ++ right.references
  | sequence segments => segments.flatMap fun segment => segment.items.filterMap Item.reference?

end Node

end BackusNaur

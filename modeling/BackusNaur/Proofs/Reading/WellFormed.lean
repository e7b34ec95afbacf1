import BackusNaur.Definition
import Mathlib.Data.List.Chain

/-!
# Well-formed definitions

What a grammar text can say. Names and literals have no place for some characters, since nothing
escapes them, and of the shapes of a right-hand side only those are written that reading builds.
-/

namespace BackusNaur

/-- A character beside which a bar does not stand alone. -/
def joinsBar (c : Char) : Bool :=
  c.isAlphanum || c == '_' || c == '<' || c == '>' || c == '\''

/-- The name can be written in angle brackets: nothing in it ends the symbol or is set apart. -/
structure Writable (name : String) : Prop where
  no_blank : ∀ c ∈ name.toList, Text.isBlank c = false
  no_quote : '"' ∉ name.toList
  no_brace : ∀ c ∈ ['{', '}', '[', ']'], c ∉ name.toList
  bars_joined : ∀ before after, '<' :: name.toList ++ ['>'] = before ++ '|' :: after →
    before.getLast?.any joinsBar = true ∨ after.head?.any joinsBar = true

def Item.WellFormed : Item → Prop
  | literal text => '"' ∉ text.toList ∧ ∀ c ∈ text.toList, Text.isLineBreak c = false
  | reference name => Writable name

namespace Segment

def isRun : Segment → Bool
  | run _ => true
  | group _ _ => false

/-- Groups may be empty. -/
def WellFormed (part : Segment) : Prop :=
  (part.isRun → part.items ≠ []) ∧ ∀ item ∈ part.items, item.WellFormed

end Segment

/-- Alternations nest to the left, and two runs next to each other would be one. -/
def Node.WellFormed : Node → Prop
  | alternation left right => left.WellFormed ∧ (∃ parts, right = sequence parts) ∧ right.WellFormed
  | sequence parts =>
    parts ≠ [] ∧ (∀ part ∈ parts, part.WellFormed) ∧ parts.IsChain fun p q => ¬ (p.isRun ∧ q.isRun)

/-- Definitions that can be written one on a line. -/
structure WellFormed (definitions : List (String × Node)) : Prop where
  distinct : (definitions.map Prod.fst).Nodup
  names : ∀ d ∈ definitions, Writable d.1
  nodes : ∀ d ∈ definitions, d.2.WellFormed
  no_self_reference : ∀ d ∈ definitions, d.1 ∉ d.2.references

end BackusNaur

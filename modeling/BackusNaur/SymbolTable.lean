import BackusNaur.Node
import BackusNaur.Text.Order

/-!
# Symbol tables

A table gives each defined symbol its right-hand side. It is closed when every reference in it has
a definition; only closed tables can be matched against.
-/

namespace BackusNaur

/-- Symbols with their right-hand sides. Of two entries for a name the first counts. -/
abbrev SymbolTable := List (String × Node)

namespace SymbolTable

def find? (table : SymbolTable) (name : String) : Option Node := List.lookup name table

def names (table : SymbolTable) : List String := table.map Prod.fst

theorem mem_of_find? {table : SymbolTable} {name : String} {node : Node}
    (h : table.find? name = some node) : (name, node) ∈ table := by
  obtain ⟨before, after, rfl, -⟩ := List.lookup_eq_some_iff.mp h
  simp

theorem mem_names_iff {table : SymbolTable} {name : String} :
    name ∈ table.names ↔ ∃ node, table.find? name = some node := by
  constructor
  · intro h
    cases hd : table.find? name with
    | some node => exact ⟨node, rfl⟩
    | none =>
      obtain ⟨entry, he, rfl⟩ := List.mem_map.mp h
      simpa using List.lookup_eq_none_iff.mp hd entry he
  · rintro ⟨node, hd⟩
    exact List.mem_map.mpr ⟨_, mem_of_find? hd, rfl⟩

def undefinedNames (table : SymbolTable) : List String :=
  Text.sortedSet
    ((table.flatMap fun entry => entry.2.references).filter fun name => (table.find? name).isNone)

theorem isSome_find?_of_closed {table : SymbolTable} (closed : table.undefinedNames = [])
    (hd : table.find? symbol = some node) {name : String} (hr : name ∈ node.references) :
    (table.find? name).isSome := by
  refine Decidable.byContradiction fun hn => ?_
  have hm : name ∈ table.undefinedNames := by
    refine Text.mem_sortedSet.mpr (List.mem_filter.mpr ⟨?_, by simpa using hn⟩)
    exact List.mem_flatMap.mpr ⟨_, mem_of_find? hd, hr⟩
  rw [closed] at hm
  cases hm

theorem exists_find?_of_closed {table : SymbolTable} (closed : table.undefinedNames = [])
    (hd : table.find? symbol = some node) {name : String} (hr : name ∈ node.references) :
    ∃ inner, table.find? name = some inner :=
  Option.isSome_iff_exists.mp (isSome_find?_of_closed closed hd hr)

def nesting (table : SymbolTable) : Nat :=
  table.foldr (fun entry deepest => max entry.2.nesting deepest) 0

theorem nesting_cons (entry : String × Node) (table : SymbolTable) :
    nesting (entry :: table) = max entry.2.nesting table.nesting := rfl

end SymbolTable

end BackusNaur

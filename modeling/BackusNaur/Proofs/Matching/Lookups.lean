import BackusNaur.Proofs.Matching.Refinement

/-!
# Looking up symbols

A table has a matcher if it defines every name that a definition of it mentions anywhere. Then every
name that a search looks up has a definition, also where the search has met the bound and takes ways
that rest on an end that was made up.

`Matcher.ofTable_exact`: which tables have no matcher, with the names that they lack, and which
answers a match in the others can have.
-/

namespace BackusNaur

-- ---------------------------------------------------------------------------
-- Mentioned names
-- ---------------------------------------------------------------------------

/-- A reference to this name stands somewhere in the node, in a run or in a group. -/
inductive Node.Mentions : Node → String → Prop
  | left : left.Mentions name → Mentions (.alternation left right) name
  | right : right.Mentions name → Mentions (.alternation left right) name
  | item : part ∈ parts → .reference name ∈ part.items → Mentions (.sequence parts) name

theorem Node.mem_references_iff {node : Node} : name ∈ node.references ↔ node.Mentions name := by
  induction node with
  | alternation left right ihl ihr =>
    rw [references, List.mem_append, ihl, ihr]
    constructor
    · rintro (h | h)
      · exact .left h
      · exact .right h
    · intro h
      cases h with
      | left h => exact .inl h
      | right h => exact .inr h
  | sequence parts =>
    simp only [references, List.mem_flatMap, List.mem_filterMap]
    constructor
    · rintro ⟨part, hpart, item, hitem, hname⟩
      cases item with
      | literal text => cases hname
      | reference inner =>
        obtain rfl := Option.some.inj hname
        exact .item hpart hitem
    · intro h
      cases h with
      | item hpart hitem => exact ⟨_, hpart, _, hitem, rfl⟩

namespace SymbolTable

variable {table : SymbolTable}

/-- A definition mentions this name, and the table does not define it. -/
def Lacks (table : SymbolTable) (name : String) : Prop :=
  name ∉ table.names ∧ ∃ entry ∈ table, entry.2.Mentions name

theorem mem_undefinedNames_iff : name ∈ table.undefinedNames ↔ table.Lacks name := by
  have hnone : (table.find? name).isNone = true ↔ name ∉ table.names := by
    rw [mem_names_iff]
    cases table.find? name <;> simp
  simp only [undefinedNames, Text.mem_sortedSet, List.mem_filter, List.mem_flatMap, hnone,
    Node.mem_references_iff]
  exact And.comm

theorem undefinedNames_eq_nil_iff : table.undefinedNames = [] ↔ ∀ name, ¬ table.Lacks name := by
  simp only [List.eq_nil_iff_forall_not_mem, mem_undefinedNames_iff]

end SymbolTable

-- ---------------------------------------------------------------------------
-- Matchers
-- ---------------------------------------------------------------------------

namespace Matcher

variable {table : SymbolTable} {maxDepth : Int} {m : Matcher} {stack : Nat} {start : String}
  {tokens : List String}

theorem ofTable_eq_error_iff : ofTable table maxDepth = .error names ↔
    table.undefinedNames ≠ [] ∧ table.undefinedNames = names := by
  unfold ofTable
  split <;> simp_all

theorem ofTable_eq_ok_iff :
    ofTable table maxDepth = .ok m ↔ m.table = table ∧ m.maxDepth = maxDepth := by
  unfold ofTable
  obtain ⟨table', maxDepth', closed'⟩ := m
  constructor
  · intro h
    split at h
    · cases h
      exact ⟨rfl, rfl⟩
    · cases h
  · rintro ⟨rfl, rfl⟩
    exact dif_pos closed'

theorem run_of_mem_names (hstart : start ∈ m.table.names) :
    (∃ result, m.run stack start tokens = .ok result) ∨
      m.run stack start tokens = .error (.recursionLimit m.maxDepth) := by
  obtain ⟨node, hd⟩ := SymbolTable.mem_names_iff.mp hstart
  by_cases ho : ∃ stop recorded, m.Outcome stack node tokens stop recorded
  · obtain ⟨stop, recorded, ho⟩ := ho
    obtain ⟨result, hrun, -⟩ := exists_run_eq_ok hd ho
    exact .inl ⟨result, hrun⟩
  · exact .inr (run_eq_recursionLimit hd ho)

theorem run_of_not_mem_names (hstart : start ∉ m.table.names) : m.run stack start tokens =
    .error (.unknownStart start (Text.sortedSet m.table.names)) := by
  refine run_of_find?_eq_none (Option.eq_none_iff_forall_ne_some.mpr fun node hd => hstart ?_)
  exact SymbolTable.mem_names_iff.mpr ⟨node, hd⟩

theorem run_eq_unknownStart_iff {available : List String} :
    m.run stack start tokens = .error (.unknownStart start available) ↔
      start ∉ m.table.names ∧ available = Text.sortedSet m.table.names := by
  constructor
  · intro h
    have hstart : start ∉ m.table.names := by
      intro hstart
      rcases run_of_mem_names hstart with ⟨result, hok⟩ | hdeep
      · cases hok.symm.trans h
      · cases hdeep.symm.trans h
    cases (run_of_not_mem_names hstart).symm.trans h
    exact ⟨hstart, rfl⟩
  · rintro ⟨hstart, rfl⟩
    exact run_of_not_mem_names hstart

theorem descend_ne_undefined (hd : m.table.find? start = some node) (name : String) :
    m.descend stack node tokens ≠ .error (.undefined name) := by
  intro hundefined
  have hrefs : ∀ name ∈ node.references, (m.table.find? name).isSome :=
    fun _ => SymbolTable.isSome_find?_of_closed m.closed hd
  rcases settles_node m.closed stack (m.maxDepth + 1).toNat node 0 hrefs with
    ⟨stop, s, d, he, hf, hdepth⟩ | hfails
  · obtain ⟨spans, hrun, -⟩ := he.finds_node hf hdepth {}
    cases hrun.symm.trans hundefined
  · rcases hfails {} with hrun | ⟨stop, spans, hrun⟩ <;> cases hrun.symm.trans hundefined

/-- A table is refused exactly if it lacks a name that one of its definitions mentions, and the
names that it lacks are told, each once and in order. Otherwise a match tells that its start symbol
is unknown exactly if it is, with all the symbols in order; from a known symbol it has a result or
is too deep. Every lookup on its way succeeds, after it has met the bound as well, whatever the
stack allows. -/
theorem ofTable_exact (table : SymbolTable) (maxDepth : Int) :
    ((∃ names, ofTable table maxDepth = .error names) ↔ ∃ name, table.Lacks name) ∧
    (∀ names, ofTable table maxDepth = .error names →
      names.Pairwise (· < ·) ∧ ∀ name, name ∈ names ↔ table.Lacks name) ∧
    ∀ m, ofTable table maxDepth = .ok m → ∀ stack start tokens,
      ((∃ available, m.run stack start tokens = .error (.unknownStart start available)) ↔
        start ∉ table.names) ∧
      (∀ available, m.run stack start tokens = .error (.unknownStart start available) →
        available.Pairwise (· < ·) ∧ ∀ name, name ∈ available ↔ name ∈ table.names) ∧
      (∀ node, table.find? start = some node →
        ((∃ result, m.run stack start tokens = .ok result) ∨
          m.run stack start tokens = .error (.recursionLimit maxDepth)) ∧
        ∀ name, m.descend stack node tokens ≠ .error (.undefined name)) := by
  refine ⟨?_, ?_, ?_⟩
  · simp only [ofTable_eq_error_iff, exists_and_left, exists_eq', and_true, ne_eq,
      SymbolTable.undefinedNames_eq_nil_iff, not_forall, not_not]
  · intro names h
    obtain ⟨-, rfl⟩ := ofTable_eq_error_iff.mp h
    exact ⟨Text.pairwise_sortedSet _, fun name => SymbolTable.mem_undefinedNames_iff⟩
  · intro m h stack start tokens
    obtain ⟨rfl, rfl⟩ := ofTable_eq_ok_iff.mp h
    refine ⟨?_, ?_, ?_⟩
    · simp only [run_eq_unknownStart_iff, exists_and_left, exists_eq, and_true]
    · intro available hrun
      obtain ⟨-, rfl⟩ := run_eq_unknownStart_iff.mp hrun
      exact ⟨Text.pairwise_sortedSet _, fun name => Text.mem_sortedSet⟩
    · intro node hd
      exact ⟨run_of_mem_names (SymbolTable.mem_names_iff.mpr ⟨node, hd⟩),
        descend_ne_undefined hd⟩

def incomplete : SymbolTable := [
  ("s", .alternation (.sequence [.run [.literal "x"]])
    (.sequence [.group [.literal "y", .reference "b"] .optional])),
  ("t", .sequence [.run [.reference "a", .reference "s"]])]

theorem ofTable_incomplete :
    (∃ names, ofTable incomplete 50 = .error names ∧ names.Pairwise (· < ·) ∧ "b" ∈ names) ∧
    ∃ m, ofTable nested.table 4 = .ok m ∧
      (∃ available, m.run 9 "t" ["a"] = .error (.unknownStart "t" available)) ∧
      ((∃ result, m.run 9 "s" ["a"] = .ok result) ∨
        m.run 9 "s" ["a"] = .error (.recursionLimit 4)) := by
  constructor
  · have hlacks : incomplete.Lacks "b" :=
      ⟨by decide, _, .head _, .right (.item (.head _) (.tail _ (.head _)))⟩
    obtain ⟨hrefused, hnames, -⟩ := ofTable_exact incomplete 50
    obtain ⟨names, h⟩ := hrefused.mpr ⟨"b", hlacks⟩
    obtain ⟨hincreasing, hmem⟩ := hnames names h
    exact ⟨names, h, hincreasing, (hmem "b").mpr hlacks⟩
  · obtain ⟨-, -, hmatch⟩ := ofTable_exact nested.table 4
    have h : ofTable nested.table 4 = .ok nested := ofTable_eq_ok_iff.mpr ⟨rfl, rfl⟩
    obtain ⟨hunknown, -, -⟩ := hmatch nested h 9 "t" ["a"]
    obtain ⟨-, -, hknown⟩ := hmatch nested h 9 "s" ["a"]
    obtain ⟨hanswer, -⟩ := hknown _ rfl
    exact ⟨nested, h, hunknown.mpr (by decide), hanswer⟩

end Matcher

end BackusNaur

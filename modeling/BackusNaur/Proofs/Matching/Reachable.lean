import BackusNaur.Proofs.Matching.Transfer

/-!
# What a match depends on

A match of a symbol comes to no definition but those that references lead to from it. So it has the
same answer in every table that has these definitions, whatever else there is, under every bound;
and the symbols of its spans are among those that the references lead to.

`Matcher.run_eq_of_agreesFrom`: both statements.
-/

namespace BackusNaur

variable {table other : SymbolTable} {tokens : List String} {phrase : Phrase}
  {start : String} {node : Node}

namespace SymbolTable

/-- One or more references lead from `start` to this symbol. -/
def ReferredFrom (table : SymbolTable) (start name : String) : Prop :=
  ∃ owner whole, table.LeadsTo start owner whole ∧ name ∈ whole.references

/-- The other table has the same definitions of all the symbols that `start` leads to. -/
def AgreesFrom (table other : SymbolTable) (start : String) : Prop :=
  ∀ name ∈ table.reached start, other.find? name = table.find? name

theorem closedOn_referredFrom (table : SymbolTable) (start : String) :
    table.ClosedOn {name | table.ReferredFrom start name} := by
  rintro name ⟨owner, whole, hleads, hname⟩ node hd inner hinner
  exact ⟨name, node, .reference hleads hname hd, hinner⟩

theorem agreesFrom_append (table further : SymbolTable) (start : String) :
    table.AgreesFrom (table ++ further) start := by
  rintro name ⟨whole, hleads⟩
  have hd : List.lookup name table = some whole := hleads.find?
  simp [find?, List.lookup_append, hd]

theorem AgreesFrom.leadsTo (h : table.AgreesFrom other start)
    (closed : table.undefinedNames = []) (hd : table.find? start = some node)
    (hleads : other.LeadsTo start name whole) : table.LeadsTo start name whole := by
  induction hleads with
  | start hd' =>
    rw [h start ⟨node, .start hd⟩] at hd'
    exact .start hd'
  | reference _ hname hd' ih =>
    obtain ⟨inner, hinner⟩ := exists_find?_of_closed closed ih.find? hname
    rw [h _ ⟨inner, .reference ih hname hinner⟩] at hd'
    exact .reference ih hname hd'

theorem AgreesFrom.symm (h : table.AgreesFrom other start) (closed : table.undefinedNames = [])
    (hd : table.find? start = some node) : other.AgreesFrom table start := by
  rintro name ⟨whole, hleads⟩
  exact (h name ⟨whole, h.leadsTo closed hd hleads⟩).symm

end SymbolTable

namespace Evaluates

theorem of_agreesFrom (h : Evaluates table tokens (.node node) pos stop s d)
    (hd : table.find? start = some node) (hagree : table.AgreesFrom other start) :
    Evaluates other tokens (.node node) pos stop s d := by
  have hcarries : table.CarriesOver other tokens Eq {name | table.ReferredFrom start name} := by
    rintro name ⟨owner, whole, hleads, hname⟩ inner hinner
    refine ⟨inner, ?_, fun _ _ _ e he => ⟨e, rfl, he⟩⟩
    rw [hagree name ⟨inner, .reference hleads hname hinner⟩, hinner]
  obtain ⟨_, rfl, h⟩ := h.transfer .eq (table.closedOn_referredFrom start) hcarries
    fun name hname => ⟨start, node, .start hd, hname⟩
  exact h

theorem name_mem_of_recorded {names : Set String} (hclosed : table.ClosedOn names)
    (h : Evaluates table tokens phrase pos stop s d) (hnames : phrase.Within names) :
    ∀ span ∈ s, span.name ∈ names := by
  induction h with
  | alternation _ _ ihl ihr =>
    obtain ⟨hleft, hright⟩ := Phrase.within_alternation.mp hnames
    rintro span (hs | hs)
    · exact ihl hleft span hs
    · exact ihr hright span hs
  | run _ _ ihi ihr | group _ _ ihi ihr =>
    obtain ⟨hitems, hrest⟩ := Phrase.within_segments.mp hnames
    rintro span (hs | hs)
    · exact ihi hitems span hs
    · exact ihr hrest span hs
  | runFails _ ih => exact ih (Phrase.within_segments.mp hnames).1
  | sequence _ ih | emptyLiteral _ _ ih | literal _ _ _ ih => exact ih hnames
  | noSegments | noItems | literalFails => exact fun _ hs => hs.elim
  | reference hd _ _ ihn ihr =>
    obtain ⟨hname, hrest⟩ := Phrase.within_reference.mp hnames
    rintro span (hs | rfl | hs)
    · exact ihn (hclosed _ hname _ hd) span hs
    · exact hname
    · exact ihr hrest span hs
  | referenceFails hd _ ih =>
    obtain ⟨hname, -⟩ := Phrase.within_reference.mp hnames
    exact ih (hclosed _ hname _ hd)

end Evaluates

-- ---------------------------------------------------------------------------
-- Matching
-- ---------------------------------------------------------------------------

namespace Matcher

theorem referredFrom_of_run (m : Matcher) (h : m.run stack start tokens = .ok result) :
    ∀ entry ∈ result.spans, m.table.ReferredFrom start entry.1 := by
  intro entry hentry
  obtain ⟨node, hd, stop, s, ⟨d, he, -⟩, hshows⟩ := outcome_of_run_eq_ok h
  obtain ⟨span, hs, hname⟩ := (hshows.spans.mem_names entry.1).mp (List.mem_map_of_mem hentry)
  rw [← hname]
  exact he.name_mem_of_recorded (m.table.closedOn_referredFrom start)
    (fun name hname => ⟨start, node, .start hd, hname⟩) span hs

/-- A match of a symbol has the same answer in every closed table that has the same definitions of
the symbols that this one leads to; the bound and the stack must be the same. References lead from
the symbol to all the symbols that have spans. -/
theorem run_eq_of_agreesFrom (m m' : Matcher) (stack : Nat) (start : String) (tokens : List String)
    (hstart : start ∈ m.table.names) (hagree : m.table.AgreesFrom m'.table start)
    (hdepth : m.maxDepth = m'.maxDepth) :
    m.run stack start tokens = m'.run stack start tokens ∧
    ∀ result, m.run stack start tokens = .ok result →
      ∀ entry ∈ result.spans, m.table.ReferredFrom start entry.1 := by
  obtain ⟨node, hd⟩ := SymbolTable.mem_names_iff.mp hstart
  have hd' : m'.table.find? start = some node := by rw [hagree start ⟨node, .start hd⟩, hd]
  refine ⟨run_eq_of_outcome_iff hd hd' hdepth fun stop s => ?_, fun _ => m.referredFrom_of_run⟩
  constructor
  · rintro ⟨d, he, hle, hlt⟩
    exact ⟨d, he.of_agreesFrom hd hagree, hdepth ▸ hle, hlt⟩
  · rintro ⟨d, he, hle, hlt⟩
    exact ⟨d, he.of_agreesFrom hd' (hagree.symm m.closed hd), hdepth ▸ hle, hlt⟩

def nestedExtended : Matcher where
  table := nested.table ++ [("t", .alternation (.sequence [.run [.reference "t"]])
    (.sequence [.run [.reference "s"]]))]
  maxDepth := 4
  closed := by decide

theorem nestedExtended_run :
    nestedExtended.run 7 "s" ["a", "A"] = .ok ⟨true, 2, ["a", "A"], [("s", ["[ A ]"])]⟩ ∧
      nested.table.ReferredFrom "s" "s" := by
  obtain ⟨hrun, hreferred⟩ := run_eq_of_agreesFrom nested nestedExtended 7 "s" ["a", "A"] (.head _)
    (SymbolTable.agreesFrom_append _ _ _) rfl
  rw [nested_run] at hrun hreferred
  exact ⟨hrun.symm, hreferred _ rfl ("s", ["[ A ]"]) (.head _)⟩

end Matcher

end BackusNaur

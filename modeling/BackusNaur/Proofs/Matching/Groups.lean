import BackusNaur.Proofs.Matching.Alternatives

/-!
# Groups compiled away

A group is matched or left out. The same can be said without groups: by a reference to a further
symbol, which is either the items of the group or nothing. Leaving a group out and going on from the
farthest of two ends come to the same, since items never end before their start.

`Matcher.run_of_compilesGroups`: a match in a table with groups and one in a table where some of
them are references to further symbols have the same result, but for the spans of those symbols.
-/

namespace BackusNaur

variable {table other : SymbolTable} {tokens : List String} {node node' : Node}

-- ---------------------------------------------------------------------------
-- Nodes with fewer groups
-- ---------------------------------------------------------------------------

def Node.optionally (items : List Item) : Node :=
  .alternation (.sequence [.run items]) (.sequence [.run [.literal ""]])

/-- The segment itself, or for a group a reference to a symbol that is new in `other` and defined
there as the items of the group or nothing. -/
inductive Segment.CompiledAs (table other : SymbolTable) : Segment → Segment → Prop
  | keep (part : Segment) : CompiledAs table other part part
  | group (hfresh : table.find? name = none)
      (hdef : other.find? name = some (Node.optionally row)) :
    CompiledAs table other (.group row mark) (.run [.reference name])

/-- Some groups of the node are references to new symbols of `other`. -/
inductive Node.CompiledAs (table other : SymbolTable) : Node → Node → Prop
  | alternation (hleft : CompiledAs table other left left')
      (hright : CompiledAs table other right right') :
    CompiledAs table other (.alternation left right) (.alternation left' right')
  | sequence (hparts : List.Forall₂ (Segment.CompiledAs table other) parts parts') :
    CompiledAs table other (.sequence parts) (.sequence parts')

/-- Every symbol of the table is defined in `other` by the same node with some groups compiled. -/
def SymbolTable.CompilesGroups (table other : SymbolTable) : Prop :=
  ∀ name node, table.find? name = some node →
    ∃ node', other.find? name = some node' ∧ node.CompiledAs table other node'

def SymbolTable.symbols (table : SymbolTable) : Set String := {name | name ∈ table.names}

theorem spansOf_insert_of_fresh {s : Set Span} (hfresh : table.find? name = none) :
    spansOf table.symbols (insert ⟨name, lo, hi⟩ s) = spansOf table.symbols s := by
  have hspan : spansOf table.symbols {⟨name, lo, hi⟩} = ∅ := by
    refine Set.eq_empty_of_forall_notMem ?_
    rintro _ ⟨rfl, hm⟩
    obtain ⟨node, hd⟩ := SymbolTable.mem_names_iff.mp hm
    cases hfresh.symm.trans hd
  rw [spansOf_insert, hspan, Set.empty_union]

-- ---------------------------------------------------------------------------
-- Evaluation
-- ---------------------------------------------------------------------------

namespace Evaluates

theorem optionally (h : Evaluates other tokens (.items row) pos reached s d) :
    ∃ d', Evaluates other tokens (.node (.optionally row)) pos (some (reached.getD pos)) s d' := by
  have hrow : Evaluates other tokens (.segments [.run row]) pos reached s d := by
    cases reached with
    | none => exact .runFails h
    | some mid => simpa using Evaluates.run h .noSegments
  have hempty : Evaluates other tokens (.segments [.run [.literal ""]]) pos (some pos) ∅ 0 := by
    simpa using Evaluates.run (.emptyLiteral rfl .noItems) .noSegments
  have hfarther : Reach.farther reached (some pos) = some (reached.getD pos) := by
    cases reached with
    | none => rfl
    | some mid =>
      refine Reach.farther_left ?_
      rintro _ ⟨⟩
      exact h.le_stop mid rfl
  have hboth := Evaluates.alternation (.sequence hrow) (.sequence hempty)
  rw [hfarther, Set.union_empty] at hboth
  exact ⟨_, hboth⟩

theorem segments_of_compiled (h : Evaluates other tokens (.segments parts) pos stop s d)
    (hparts : List.Forall₂ (Segment.CompiledAs table other) parts parts') :
    ∃ s' d', spansOf table.symbols s = spansOf table.symbols s' ∧
      Evaluates other tokens (.segments parts') pos stop s' d' := by
  induction hparts generalizing pos stop s d with
  | nil => exact ⟨s, d, rfl, h⟩
  | cons hpart _ ih =>
    cases hpart with
    | keep part =>
      cases h with
      | run hi hr =>
        obtain ⟨t, e, ht, hr⟩ := ih hr
        exact ⟨_, _, by simp [ht], .run hi hr⟩
      | runFails hi => exact ⟨s, d, rfl, .runFails hi⟩
      | group hi hr =>
        obtain ⟨t, e, ht, hr⟩ := ih hr
        exact ⟨_, _, by simp [ht], .group hi hr⟩
    | group hfresh hdef =>
      cases h with
      | group hi hr =>
        obtain ⟨t, e, ht, hr⟩ := ih hr
        obtain ⟨d', hn⟩ := hi.optionally
        refine ⟨_, _, ?_, .run (.reference hdef hn .noItems) hr⟩
        simp [ht, spansOf_insert_of_fresh hfresh]

theorem node_of_compiled (h : Evaluates other tokens (.node node) pos stop s d)
    (hnode : node.CompiledAs table other node') :
    ∃ s' d', spansOf table.symbols s = spansOf table.symbols s' ∧
      Evaluates other tokens (.node node') pos stop s' d' := by
  induction hnode generalizing pos stop s d with
  | alternation _ _ ihl ihr =>
    cases h with
    | alternation hl hr =>
      obtain ⟨s, d, hs, hl⟩ := ihl hl
      obtain ⟨t, e, ht, hr⟩ := ihr hr
      exact ⟨_, _, by simp [hs, ht], .alternation hl hr⟩
  | sequence hparts =>
    cases h with
    | sequence h =>
      obtain ⟨s', d', hs, h⟩ := h.segments_of_compiled hparts
      exact ⟨s', d', hs, .sequence h⟩

end Evaluates

theorem Node.CompiledAs.refinesOn (h : node.CompiledAs table other node') :
    node.RefinesOn table.symbols other tokens (fun _ _ => True) node' := by
  intro pos stop s d he
  obtain ⟨s', d', hs, he'⟩ := he.node_of_compiled h
  exact ⟨s', d', hs, trivial, he'⟩

theorem SymbolTable.CompilesGroups.carriesOverOn (h : table.CompilesGroups other) :
    table.CarriesOverOn table.symbols other tokens (fun _ _ => True) Set.univ := by
  intro name _ node hd
  obtain ⟨node', hd', hnode⟩ := h name node hd
  exact ⟨node', hd', hnode.refinesOn⟩

-- ---------------------------------------------------------------------------
-- Matching
-- ---------------------------------------------------------------------------

theorem SpanTable.Lists.filter {spans : SpanTable} {recorded : Set Span}
    (h : spans.Lists tokens recorded) (shown : List String) :
    SpanTable.Lists (spans.filter (·.1 ∈ shown)) tokens
      (spansOf {name | name ∈ shown} recorded) where
  names_increasing := h.names_increasing.sublist (List.filter_sublist.map Prod.fst)
  texts_increasing := fun entry he => h.texts_increasing entry (List.mem_of_mem_filter he)
  mem_names := by
    intro name
    have hfilter : (spans.filter (·.1 ∈ shown)).map Prod.fst =
        (spans.map Prod.fst).filter (· ∈ shown) := by
      rw [List.filter_map]
      rfl
    rw [hfilter, List.mem_filter, h.mem_names, decide_eq_true_eq]
    constructor
    · rintro ⟨⟨span, hs, rfl⟩, hm⟩
      exact ⟨span, ⟨hs, hm⟩, rfl⟩
    · rintro ⟨span, ⟨hs, hm⟩, rfl⟩
      exact ⟨⟨span, hs, rfl⟩, hm⟩
  mem_texts := by
    intro entry he text
    obtain ⟨he, hm⟩ := List.mem_filter.mp he
    rw [h.mem_texts entry he]
    constructor
    · rintro ⟨span, hs, hname, htext⟩
      exact ⟨span, ⟨hs, hname ▸ of_decide_eq_true hm⟩, hname, htext⟩
    · rintro ⟨span, ⟨hs, -⟩, hname, htext⟩
      exact ⟨span, hs, hname, htext⟩

/-- A search records spans of symbols of its table only. -/
theorem Evaluates.spansOf_symbols (h : Evaluates table tokens (.node node) 0 stop s d) :
    spansOf table.symbols s = s := by
  refine Set.sep_eq_self_iff_mem_true.mpr fun span hs => ?_
  obtain ⟨inner, hd, -⟩ := (h.genuine (Nat.zero_le _) span hs).derives
  exact SymbolTable.mem_names_iff.mpr ⟨inner, hd⟩

/-- Groups can be compiled away: under any two bounds and on any two stacks that both matches keep
to, they end at the same place and list the same texts, once the symbols that stand for groups are
left out. -/
theorem Matcher.run_of_compilesGroups (m m' : Matcher) (stack stack' : Nat) (start : String)
    (tokens : List String) (result result' : MatchResult)
    (htable : m.table.CompilesGroups m'.table) (hrun : m.run stack start tokens = .ok result)
    (hrun' : m'.run stack' start tokens = .ok result') :
    result.stop = result'.stop ∧ result.matched = result'.matched ∧
    result.spans = result'.spans.filter (·.1 ∈ m.table.names) := by
  obtain ⟨node, hd, stop, s, ⟨d, he, -⟩, hshows⟩ := outcome_of_run_eq_ok hrun
  obtain ⟨node', hd', stop', s', ⟨d', he', -⟩, hshows'⟩ := outcome_of_run_eq_ok hrun'
  obtain ⟨t, e, ht, -, hmoved⟩ := htable.carriesOverOn.transfer .any hd hd' he
  obtain ⟨rfl, rfl, -⟩ := hmoved.deterministic he'
  rw [he.spansOf_symbols] at ht
  refine ⟨?_, ?_, ?_⟩
  · rw [hshows.stop_eq, hshows'.stop_eq]
  · rw [Bool.eq_iff_iff, hshows.matched_iff, hshows'.matched_iff]
  · exact hshows.spans.unique (ht ▸ hshows'.spans.filter m.table.names)

namespace Matcher

def addend : List Item := [.literal "+", .reference "sum"]

def argument : List Item := [.literal "(", .reference "sum", .literal ")"]

def callSum : Matcher where
  table := [
    ("sum", .sequence [.run [.reference "call"], .group addend .optional]),
    ("call", .sequence [.run [.literal "f"], .group argument .zeroOrMore])]
  maxDepth := 20
  closed := by decide

def compiledCallSum : Matcher where
  table := [
    ("sum", .sequence [.run [.reference "call"], .run [.reference "addend"]]),
    ("addend", .optionally addend),
    ("call", .sequence [.run [.literal "f"], .run [.reference "argument"]]),
    ("argument", .optionally argument)]
  maxDepth := 30
  closed := by decide

/-- The argument lacks its end and is left out, and what was found in it is still listed. -/
theorem callSum_run_compiledCallSum : ∃ result result',
    callSum.run 30 "sum" ["f", "(", "f", "+", "f"] = .ok result ∧
    compiledCallSum.run 50 "sum" ["f", "(", "f", "+", "f"] = .ok result' ∧
    result.stop = 1 ∧ result'.stop = 1 ∧ "addend" ∈ result'.spans.map Prod.fst ∧
    result.spans = result'.spans.filter (·.1 ∈ callSum.table.names) := by
  have htable : callSum.table.CompilesGroups compiledCallSum.table := by
    intro name node hd
    rcases List.mem_pair.mp (SymbolTable.mem_of_find? hd) with ⟨⟨⟩⟩ | ⟨⟨⟩⟩
    · exact ⟨_, rfl, .sequence (.cons (.keep _) (.cons (.group (by decide) rfl) .nil))⟩
    · exact ⟨_, rfl, .sequence (.cons (.keep _) (.cons (.group (by decide) rfl) .nil))⟩
  obtain ⟨result, hrun, hstop⟩ : ∃ result,
      callSum.run 30 "sum" ["f", "(", "f", "+", "f"] = .ok result ∧ result.stop = 1 := ⟨_, rfl, rfl⟩
  obtain ⟨result', hrun', hnames⟩ : ∃ result,
      compiledCallSum.run 50 "sum" ["f", "(", "f", "+", "f"] = .ok result ∧
      "addend" ∈ result.spans.map Prod.fst := ⟨_, rfl, by decide⟩
  obtain ⟨heq, -, hspans⟩ := run_of_compilesGroups callSum compiledCallSum 30 50 "sum"
    ["f", "(", "f", "+", "f"] result result' htable hrun hrun'
  exact ⟨result, result', hrun, hrun', hstop, heq ▸ hstop, hnames, hspans⟩

end Matcher

end BackusNaur

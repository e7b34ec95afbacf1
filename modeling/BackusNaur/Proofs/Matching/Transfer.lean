import BackusNaur.Proofs.Matching.LeftCalls

/-!
# Evaluation in another table

What a phrase evaluates to in one table it evaluates to in another one, as long as the definitions
of the symbols that it leads to have the same outcomes there. The extent may change from one table
to the other; how, is up to a relation that the rules keep.

`Evaluates.transferOn` is the one induction behind this. It lets the two evaluations record
different spans of symbols that nobody looks at. `Evaluates.transfer` is the case that all symbols
are looked at, and `Matcher.run_eq_of_outcome_iff` says what it means for a match.
-/

namespace BackusNaur

variable {table other : SymbolTable} {tokens : List String} {phrase : Phrase}
  {R : Extent → Extent → Prop} {names shown : Set String} {s t : Set Span}

/-- A relation between the extents of two derivations that every rule of evaluation keeps. -/
structure ExtentRelation (R : Extent → Extent → Prop) : Prop where
  zero : R 0 0
  operand : R d d' → R d.operand d'.operand
  reference : R d d' → R d.reference d'.reference
  max : R d d' → R e e' → R (max d e) (max d' e')
  trans : R d d' → R d' d'' → R d d''

theorem ExtentRelation.eq : ExtentRelation Eq where
  zero := rfl
  operand h := congrArg Extent.operand h
  reference h := congrArg Extent.reference h
  max hd he := by rw [hd, he]
  trans := Eq.trans

theorem ExtentRelation.any : ExtentRelation fun _ _ => True where
  zero := trivial
  operand _ := trivial
  reference _ := trivial
  max _ _ := trivial
  trans _ _ := trivial

def spansOf (shown : Set String) (s : Set Span) : Set Span := {span ∈ s | span.name ∈ shown}

@[simp] theorem spansOf_univ : spansOf Set.univ s = s := by simp [spansOf]

@[simp] theorem spansOf_union : spansOf shown (s ∪ t) = spansOf shown s ∪ spansOf shown t := by
  ext span
  exact or_and_right

theorem spansOf_insert (span : Span) :
    spansOf shown (insert span s) = spansOf shown {span} ∪ spansOf shown s := by
  rw [Set.insert_eq, spansOf_union]

/-- Wherever `node` has an outcome `node'` has it too, at a related extent and up to the spans of
symbols that are not shown. -/
def Node.RefinesOn (shown : Set String) (table : SymbolTable) (tokens : List String)
    (R : Extent → Extent → Prop) (node node' : Node) : Prop :=
  ∀ pos stop s d, Evaluates table tokens (.node node) pos stop s d →
    ∃ s' d', spansOf shown s = spansOf shown s' ∧ R d d' ∧
      Evaluates table tokens (.node node') pos stop s' d'

def Node.Refines (table : SymbolTable) (tokens : List String) (R : Extent → Extent → Prop)
    (node node' : Node) : Prop :=
  ∀ pos stop s d, Evaluates table tokens (.node node) pos stop s d →
    ∃ d', R d d' ∧ Evaluates table tokens (.node node') pos stop s d'

theorem Node.Refines.on {node node' : Node} (h : node.Refines table tokens R node') :
    node.RefinesOn shown table tokens R node' := by
  intro pos stop s d he
  obtain ⟨d', hd, he'⟩ := h pos stop s d he
  exact ⟨s, d', rfl, hd, he'⟩

def Phrase.Within (names : Set String) (phrase : Phrase) : Prop :=
  ∀ name ∈ phrase.references, name ∈ names

namespace Phrase

theorem within_alternation : Within names (.node (.alternation left right)) ↔
    Within names (.node left) ∧ Within names (.node right) := by
  simp [Within, or_imp, forall_and]

theorem within_segments : Within names (.segments (part :: rest)) ↔
    Within names (.items part.items) ∧ Within names (.segments rest) := by
  simp [Within, or_imp, forall_and]

theorem within_reference : Within names (.items (.reference name :: rest)) ↔
    name ∈ names ∧ Within names (.items rest) := by
  simp [Within]

end Phrase

def SymbolTable.ClosedOn (table : SymbolTable) (names : Set String) : Prop :=
  ∀ name ∈ names, ∀ node, table.find? name = some node → Phrase.Within names (.node node)

/-- These symbols have definitions in the other table that the ones in this table refine, up to the
spans of symbols that are not shown. -/
def SymbolTable.CarriesOverOn (shown : Set String) (table other : SymbolTable)
    (tokens : List String) (R : Extent → Extent → Prop) (names : Set String) : Prop :=
  ∀ name ∈ names, ∀ node, table.find? name = some node →
    ∃ node', other.find? name = some node' ∧ node.RefinesOn shown other tokens R node'

def SymbolTable.CarriesOver (table other : SymbolTable) (tokens : List String)
    (R : Extent → Extent → Prop) (names : Set String) : Prop :=
  ∀ name ∈ names, ∀ node, table.find? name = some node →
    ∃ node', other.find? name = some node' ∧ node.Refines other tokens R node'

theorem SymbolTable.CarriesOver.on (h : table.CarriesOver other tokens R names) :
    table.CarriesOverOn shown other tokens R names := by
  intro name hname node hdef
  obtain ⟨node', hdef', hrefines⟩ := h name hname node hdef
  exact ⟨node', hdef', hrefines.on⟩

namespace Evaluates

theorem transferOn (hR : ExtentRelation R) (hclosed : table.ClosedOn names)
    (hcarries : table.CarriesOverOn shown other tokens R names)
    (h : Evaluates table tokens phrase pos stop s d) (hnames : phrase.Within names) :
    ∃ s' d', spansOf shown s = spansOf shown s' ∧ R d d' ∧
      Evaluates other tokens phrase pos stop s' d' := by
  -- Only a reference looks at the table: there the definition, which evaluates in the other table
  -- by induction, is exchanged for the definition that the other table has.
  induction h with
  | alternation _ _ ihl ihr =>
    obtain ⟨hleft, hright⟩ := Phrase.within_alternation.mp hnames
    obtain ⟨s, d, hs, hd, hl⟩ := ihl hleft
    obtain ⟨t, e, ht, he, hr⟩ := ihr hright
    exact ⟨_, _, by simp [hs, ht], hR.operand (hR.max hd he), .alternation hl hr⟩
  | sequence _ ih =>
    obtain ⟨s, d, hs, hd, h⟩ := ih hnames
    exact ⟨s, d, hs, hd, .sequence h⟩
  | noSegments => exact ⟨∅, 0, rfl, hR.zero, .noSegments⟩
  | noItems => exact ⟨∅, 0, rfl, hR.zero, .noItems⟩
  | run _ _ ihi ihr =>
    obtain ⟨hitems, hrest⟩ := Phrase.within_segments.mp hnames
    obtain ⟨s, d, hs, hd, hi⟩ := ihi hitems
    obtain ⟨t, e, ht, he, hr⟩ := ihr hrest
    exact ⟨_, _, by simp [hs, ht], hR.max hd he, .run hi hr⟩
  | runFails _ ih =>
    obtain ⟨hitems, -⟩ := Phrase.within_segments.mp hnames
    obtain ⟨s, d, hs, hd, h⟩ := ih hitems
    exact ⟨s, d, hs, hd, .runFails h⟩
  | group _ _ ihi ihr =>
    obtain ⟨hitems, hrest⟩ := Phrase.within_segments.mp hnames
    obtain ⟨s, d, hs, hd, hi⟩ := ihi hitems
    obtain ⟨t, e, ht, he, hr⟩ := ihr hrest
    exact ⟨_, _, by simp [hs, ht], hR.max hd he, .group hi hr⟩
  | emptyLiteral htext _ ih =>
    obtain ⟨s, d, hs, hd, h⟩ := ih hnames
    exact ⟨s, d, hs, hd, .emptyLiteral htext h⟩
  | literal htext hm _ ih =>
    obtain ⟨s, d, hs, hd, h⟩ := ih hnames
    exact ⟨s, d, hs, hd, .literal htext hm h⟩
  | literalFails htext hf => exact ⟨∅, 0, rfl, hR.zero, .literalFails htext hf⟩
  | reference hdef _ _ ihn ihr =>
    obtain ⟨hname, hrest⟩ := Phrase.within_reference.mp hnames
    obtain ⟨node', hdef', hrefines⟩ := hcarries _ hname _ hdef
    obtain ⟨s, d, hs, hd, hn⟩ := ihn (hclosed _ hname _ hdef)
    obtain ⟨s', d', hs', hd', hn⟩ := hrefines _ _ _ _ hn
    obtain ⟨t, e, ht, he, hr⟩ := ihr hrest
    refine ⟨_, _, ?_, hR.max (hR.reference (hR.trans hd hd')) he, .reference hdef' hn hr⟩
    simp only [spansOf_union, spansOf_insert, hs, hs', ht]
  | referenceFails hdef _ ih =>
    obtain ⟨hname, -⟩ := Phrase.within_reference.mp hnames
    obtain ⟨node', hdef', hrefines⟩ := hcarries _ hname _ hdef
    obtain ⟨s, d, hs, hd, hn⟩ := ih (hclosed _ hname _ hdef)
    obtain ⟨s', d', hs', hd', hn⟩ := hrefines _ _ _ _ hn
    exact ⟨_, _, hs.trans hs', hR.reference (hR.trans hd hd'), .referenceFails hdef' hn⟩

theorem transfer (hR : ExtentRelation R) (hclosed : table.ClosedOn names)
    (hcarries : table.CarriesOver other tokens R names)
    (h : Evaluates table tokens phrase pos stop s d) (hnames : phrase.Within names) :
    ∃ d', R d d' ∧ Evaluates other tokens phrase pos stop s d' := by
  have hon : table.CarriesOverOn Set.univ other tokens R names := hcarries.on
  obtain ⟨s', d', hs, hd, h'⟩ := h.transferOn hR hclosed hon hnames
  rw [spansOf_univ, spansOf_univ] at hs
  exact ⟨d', hd, hs ▸ h'⟩

end Evaluates

/-- Where all definitions carry over, so does what one of them evaluates to. -/
theorem SymbolTable.CarriesOverOn.transfer {node node' : Node}
    (h : table.CarriesOverOn shown other tokens R Set.univ) (hR : ExtentRelation R)
    (hd : table.find? name = some node) (hd' : other.find? name = some node')
    (he : Evaluates table tokens (.node node) pos stop s d) :
    ∃ s' d', spansOf shown s = spansOf shown s' ∧ R d d' ∧
      Evaluates other tokens (.node node') pos stop s' d' := by
  obtain ⟨s₁, d₁, hs₁, hd₁, he₁⟩ := he.transferOn hR (fun _ _ _ _ _ _ => trivial) h
    fun _ _ => trivial
  obtain ⟨_, hfound, hnode⟩ := h name trivial node hd
  obtain rfl := Option.some.inj (hfound.symm.trans hd')
  obtain ⟨s₂, d₂, hs₂, hd₂, he₂⟩ := hnode _ _ _ _ he₁
  exact ⟨s₂, d₂, hs₁.trans hs₂, hR.trans hd₁ hd₂, he₂⟩

namespace Matcher

variable {m m' : Matcher} {start : String} {node node' : Node}

/-- A match is settled by the outcomes within the bound and the stack. -/
theorem run_eq_of_outcome_iff {stack : Nat} (hd : m.table.find? start = some node)
    (hd' : m'.table.find? start = some node') (hdepth : m.maxDepth = m'.maxDepth)
    (h : ∀ stop s, m.Outcome stack node tokens stop s ↔ m'.Outcome stack node' tokens stop s) :
    m.run stack start tokens = m'.run stack start tokens := by
  by_cases ho : ∃ stop s, m.Outcome stack node tokens stop s
  · obtain ⟨stop, s, ho⟩ := ho
    obtain ⟨result, hrun, hshows⟩ := exists_run_eq_ok hd ho
    obtain ⟨result', hrun', hshows'⟩ := exists_run_eq_ok hd' ((h stop s).mp ho)
    rw [hrun, hrun', hshows.unique hshows']
  · have ho' : ¬ ∃ stop s, m'.Outcome stack node' tokens stop s := by simpa only [h] using ho
    rw [run_eq_recursionLimit hd ho, run_eq_recursionLimit hd' ho', hdepth]

end Matcher

end BackusNaur

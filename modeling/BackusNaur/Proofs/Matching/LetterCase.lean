import BackusNaur.Proofs.Matching.Alternatives

/-!
# Letter case

A token is compared with a literal by their lower case. So a match goes the same way in a table
whose literals have other letters with the same lower case, over other tokens with the same lower
case: it ends at the same place and records the same intervals of tokens. What is shown of an
interval are the tokens of the input as they were given.

`Matcher.run_of_caseVariants`: two such matches are too deep together, or their results differ in
nothing but the texts of the same intervals.
-/

namespace BackusNaur

variable {table : SymbolTable} {tokens tokens' : List String} {phrase : Phrase}
  {node node' : Node}

-- ---------------------------------------------------------------------------
-- Literals in other letters
-- ---------------------------------------------------------------------------

/-- The same reference, or two literals that differ in the case of letters at most. An empty literal
is one that takes in no token, so both are empty or neither. -/
inductive Item.CaseVariant : Item → Item → Prop
  | reference (name : String) : CaseVariant (.reference name) (.reference name)
  | empty : CaseVariant (.literal "") (.literal "")
  | literal (hne : text ≠ "") (hne' : text' ≠ "") (hlower : Text.lower text = Text.lower text') :
    CaseVariant (.literal text) (.literal text')

inductive Segment.CaseVariant : Segment → Segment → Prop
  | run (hrow : List.Forall₂ Item.CaseVariant row row') : CaseVariant (.run row) (.run row')
  | group (hrow : List.Forall₂ Item.CaseVariant row row') :
    CaseVariant (.group row mark) (.group row' mark)

inductive Node.CaseVariant : Node → Node → Prop
  | alternation (hleft : CaseVariant left left') (hright : CaseVariant right right') :
    CaseVariant (.alternation left right) (.alternation left' right')
  | sequence (hparts : List.Forall₂ Segment.CaseVariant parts parts') :
    CaseVariant (.sequence parts) (.sequence parts')

theorem Item.CaseVariant.symm {item item' : Item} (h : item.CaseVariant item') :
    item'.CaseVariant item := by
  cases h with
  | reference name => exact .reference name
  | empty => exact .empty
  | literal hne hne' hlower => exact .literal hne' hne hlower.symm

theorem Segment.CaseVariant.symm {part part' : Segment} (h : part.CaseVariant part') :
    part'.CaseVariant part := by
  cases h with
  | run hrow => exact .run (hrow.flip.imp fun _ _ => Item.CaseVariant.symm)
  | group hrow => exact .group (hrow.flip.imp fun _ _ => Item.CaseVariant.symm)

theorem Node.CaseVariant.symm (h : node.CaseVariant node') : node'.CaseVariant node := by
  induction h with
  | alternation _ _ ihl ihr => exact .alternation ihl ihr
  | sequence hparts => exact .sequence (hparts.flip.imp fun _ _ => Segment.CaseVariant.symm)

-- ---------------------------------------------------------------------------
-- Evaluation
-- ---------------------------------------------------------------------------

namespace Evaluates

theorem of_lower_eq (h : Evaluates table tokens phrase pos stop s d)
    (htokens : tokens.map Text.lower = tokens'.map Text.lower) :
    Evaluates table tokens' phrase pos stop s d := by
  have hat : ∀ pos : Nat, tokens[pos]?.map Text.lower = tokens'[pos]?.map Text.lower := by
    intro pos
    rw [← List.getElem?_map, htokens, List.getElem?_map]
  induction h with
  | alternation _ _ ihl ihr => exact .alternation ihl ihr
  | sequence _ ih => exact .sequence ih
  | noSegments => exact .noSegments
  | run _ _ ihi ihr => exact .run ihi ihr
  | runFails _ ih => exact .runFails ih
  | group _ _ ihi ihr => exact .group ihi ihr
  | noItems => exact .noItems
  | emptyLiteral he _ ih => exact .emptyLiteral he ih
  | literal hn hm _ ih => exact .literal hn (hat _ ▸ hm) ih
  | literalFails hn hf => exact .literalFails hn (hat _ ▸ hf)
  | reference hd _ _ ihn ihr => exact .reference hd ihn ihr
  | referenceFails hd _ ih => exact .referenceFails hd ih

theorem items_of_caseVariants (h : Evaluates table tokens (.items row) pos stop s d)
    (hrow : List.Forall₂ Item.CaseVariant row row') :
    Evaluates table tokens (.items row') pos stop s d := by
  induction hrow generalizing pos stop s d with
  | nil => exact h
  | cons hitem _ ih =>
    cases hitem with
    | reference name =>
      cases h with
      | reference hd hn hr => exact .reference hd hn (ih hr)
      | referenceFails hd hn => exact .referenceFails hd hn
    | empty =>
      cases h with
      | emptyLiteral he hr => exact .emptyLiteral he (ih hr)
      | literal hn => exact absurd rfl hn
      | literalFails hn => exact absurd rfl hn
    | literal hne hne' hlower =>
      cases h with
      | emptyLiteral he => exact absurd he hne
      | literal _ hm hr => exact .literal hne' (hlower ▸ hm) (ih hr)
      | literalFails _ hf => exact .literalFails hne' (hlower ▸ hf)

theorem segments_of_caseVariants (h : Evaluates table tokens (.segments parts) pos stop s d)
    (hparts : List.Forall₂ Segment.CaseVariant parts parts') :
    Evaluates table tokens (.segments parts') pos stop s d := by
  induction hparts generalizing pos stop s d with
  | nil => exact h
  | cons hpart _ ih =>
    cases hpart with
    | run hrow =>
      cases h with
      | run hi hr => exact .run (hi.items_of_caseVariants hrow) (ih hr)
      | runFails hi => exact .runFails (hi.items_of_caseVariants hrow)
    | group hrow =>
      cases h with
      | group hi hr => exact .group (hi.items_of_caseVariants hrow) (ih hr)

theorem node_of_caseVariant (h : Evaluates table tokens (.node node) pos stop s d)
    (hnode : node.CaseVariant node') : Evaluates table tokens (.node node') pos stop s d := by
  induction hnode generalizing pos stop s d with
  | alternation _ _ ihl ihr =>
    cases h with
    | alternation hl hr => exact .alternation (ihl hl) (ihr hr)
  | sequence hparts =>
    cases h with
    | sequence h => exact .sequence (h.segments_of_caseVariants hparts)

end Evaluates

theorem Node.CaseVariant.refines (h : node.CaseVariant node') :
    node.Refines table tokens Eq node' :=
  fun _ _ _ d he => ⟨d, rfl, he.node_of_caseVariant h⟩

-- ---------------------------------------------------------------------------
-- Matching
-- ---------------------------------------------------------------------------

/-- The result lists, for the symbol, the texts of these intervals of the input and no others. -/
def MatchResult.Covers (result : MatchResult) (tokens : List String) (name : String)
    (intervals : Set (Nat × Nat)) : Prop :=
  ∀ text, text ∈ result.spans.textsOf name ↔
    ∃ lo hi : Nat, (lo, hi) ∈ intervals ∧ spanText tokens lo hi = text

theorem MatchResult.Shows.covers {result : MatchResult} {stop : Option Nat} {recorded : Set Span}
    (h : result.Shows tokens stop recorded) (name : String) :
    result.Covers tokens name {i | ⟨name, i.1, i.2⟩ ∈ recorded} := by
  intro text
  rw [h.spans.mem_textsOf]
  constructor
  · rintro ⟨⟨_, lo, hi⟩, hs, rfl, htext⟩
    exact ⟨lo, hi, hs, htext⟩
  · rintro ⟨lo, hi, hs, htext⟩
    exact ⟨_, hs, rfl, htext⟩

namespace Matcher

variable {m m' : Matcher} {start : String}

theorem Outcome.of_caseVariants (ho : m.Outcome stack node tokens stop s)
    (htable : m.table.Corresponds Node.CaseVariant m'.table) (hdepth : m.maxDepth = m'.maxDepth)
    (htokens : tokens.map Text.lower = tokens'.map Text.lower)
    (hd : m.table.find? start = some node) (hd' : m'.table.find? start = some node') :
    m'.Outcome stack node' tokens' stop s := by
  obtain ⟨d, he, hle, hlt⟩ := ho
  obtain ⟨_, rfl, he'⟩ :=
    htable.transfer .eq Node.CaseVariant.refines hd hd' (he.of_lower_eq htokens)
  exact ⟨d, he', hdepth ▸ hle, hlt⟩

/-- Two tables whose literals have the same lower case, and two inputs whose tokens have: with the
same bound and stack either both matches of a symbol are too deep, or both have a result, with the
same end, and each symbol has one set of intervals whose texts in either input are its texts in that
result. -/
theorem run_of_caseVariants (m m' : Matcher) (stack : Nat) (start : String)
    (tokens tokens' : List String)
    (htable : m.table.Corresponds Node.CaseVariant m'.table) (hdepth : m.maxDepth = m'.maxDepth)
    (hstart : start ∈ m.table.names)
    (htokens : List.Forall₂ (fun token token' => Text.lower token = Text.lower token')
      tokens tokens') :
    (m.run stack start tokens = .error (.recursionLimit m.maxDepth) ∧
      m'.run stack start tokens' = .error (.recursionLimit m'.maxDepth)) ∨
    ∃ result result', m.run stack start tokens = .ok result ∧
      m'.run stack start tokens' = .ok result' ∧
      result.stop = result'.stop ∧ result.matched = result'.matched ∧
      result.spans.map Prod.fst = result'.spans.map Prod.fst ∧
      ∀ name, ∃ intervals : Set (Nat × Nat),
        (∀ i ∈ intervals, i.1 ≤ i.2 ∧ i.2 ≤ tokens.length) ∧
        result.Covers tokens name intervals ∧ result'.Covers tokens' name intervals := by
  have hlower : tokens.map Text.lower = tokens'.map Text.lower := by
    rw [← List.forall₂_eq_eq_eq, List.forall₂_map_left_iff, List.forall₂_map_right_iff]
    exact htokens
  have hlength : tokens.length = tokens'.length := htokens.length_eq
  obtain ⟨node, hd⟩ := SymbolTable.mem_names_iff.mp hstart
  obtain ⟨node', hd', -⟩ := htable.exists_find? hd
  by_cases ho : ∃ stop s, m.Outcome stack node tokens stop s
  · obtain ⟨stop, s, ho⟩ := ho
    obtain ⟨result, hrun, hshows⟩ := exists_run_eq_ok hd ho
    obtain ⟨result', hrun', hshows'⟩ :=
      exists_run_eq_ok hd' (ho.of_caseVariants htable hdepth hlower hd hd')
    obtain ⟨_, he, -⟩ := ho
    refine .inr ⟨result, result', hrun, hrun', ?_, ?_, ?_, fun name => ⟨_, ?_, hshows.covers name,
      hshows'.covers name⟩⟩
    · rw [hshows.stop_eq, hshows'.stop_eq]
    · rw [Bool.eq_iff_iff, hshows.matched_iff, hshows'.matched_iff, hlength]
    · exact hshows.spans.names_increasing.eq_of_mem_iff hshows'.spans.names_increasing fun name =>
        (hshows.spans.mem_names name).trans (hshows'.spans.mem_names name).symm
    · intro i hi
      have hgenuine := he.genuine (Nat.zero_le _) _ hi
      exact ⟨hgenuine.le, hgenuine.le_length⟩
  · have ho' : ¬ ∃ stop s, m'.Outcome stack node' tokens' stop s := by
      rintro ⟨stop, s, ho'⟩
      exact ho ⟨stop, s, ho'.of_caseVariants (htable.symm Node.CaseVariant.symm) hdepth.symm
        hlower.symm hd' hd⟩
    exact .inl ⟨run_eq_recursionLimit hd ho, run_eq_recursionLimit hd' ho'⟩

def letterPair (letter : String) : SymbolTable := [
  ("pair", .sequence [.run [.reference "letter", .reference "letter"]]),
  ("letter", .sequence [.run [.literal letter]])]

def smallPair : Matcher := ⟨letterPair "a", 4, by decide⟩

def capitalPair : Matcher := ⟨letterPair "A", 4, by decide⟩

/-- Of two intervals with different texts in one input the texts in another input are the same. -/
theorem smallPair_run_capitalPair : ∃ result result',
    smallPair.run 10 "pair" ["a", "A"] = .ok result ∧
      result.spans.textsOf "letter" = ["[ A ]", "[ a ]"] ∧
    capitalPair.run 10 "pair" ["A", "A"] = .ok result' ∧
      result'.spans.textsOf "letter" = ["[ A ]"] ∧
    ∃ intervals, result.Covers ["a", "A"] "letter" intervals ∧
      result'.Covers ["A", "A"] "letter" intervals := by
  have htable : smallPair.table.Corresponds Node.CaseVariant capitalPair.table :=
    .of_forall₂ (.cons ⟨rfl, .sequence (.cons
        (.run (.cons (.reference "letter") (.cons (.reference "letter") .nil))) .nil)⟩
      (.cons ⟨rfl, .sequence (.cons (.run (.cons
        (.literal (by decide) (by decide) (by decide)) .nil)) .nil)⟩ .nil))
  obtain ⟨result, hrun, htexts⟩ : ∃ result, smallPair.run 10 "pair" ["a", "A"] = .ok result ∧
      result.spans.textsOf "letter" = ["[ A ]", "[ a ]"] := ⟨_, rfl, by decide⟩
  obtain ⟨result', hrun', htexts'⟩ : ∃ result, capitalPair.run 10 "pair" ["A", "A"] = .ok result ∧
      result.spans.textsOf "letter" = ["[ A ]"] := ⟨_, rfl, by decide⟩
  obtain ⟨hdeep, -⟩ | ⟨found, found', hfound, hfound', -, -, -, hcovers⟩ :=
    run_of_caseVariants smallPair capitalPair 10 "pair" ["a", "A"] ["A", "A"] htable rfl
      (by decide) (.cons (by decide) (.cons rfl .nil))
  · cases hdeep.symm.trans hrun
  · cases hfound.symm.trans hrun
    cases hfound'.symm.trans hrun'
    obtain ⟨intervals, -, hcover, hcover'⟩ := hcovers "letter"
    exact ⟨_, _, hrun, htexts, hrun', htexts', intervals, hcover, hcover'⟩

end Matcher

end BackusNaur

import BackusNaur.Proofs.Matching.Alternatives
import BackusNaur.Proofs.Matching.Eager

/-!
# What a match does not look at

Nodes can be written in several ways that are one to a match: the mark of a group says nothing, an
empty literal is found everywhere, and where one run ends and the next begins makes no difference.
`Node.erased` takes all of this out of a node. A group stays where it is, even without items.

`Matcher.run_eq_of_erased_eq`: tables that come to the same in this way give the same answer to each
match. Nothing that is taken out takes up depth or frames, so a match is too deep in the one table
exactly if it is in the other.
-/

namespace BackusNaur

variable {table : SymbolTable} {tokens : List String} {phrase phrase' phrase'' : Phrase}
  {row row' : List Item} {rest rest' parts parts' : List Segment}
  {mark mark' : Quantifier} {node node' left left' right right' : Node}

-- ---------------------------------------------------------------------------
-- Erased nodes
-- ---------------------------------------------------------------------------

def Item.erasedRow (row : List Item) : List Item := row.filter (!·.isEmptyLiteral)

namespace Segment

def erased : Segment → Segment
  | run row => run (Item.erasedRow row)
  | group row _ => group (Item.erasedRow row) .zeroOrMore

/-- The segments with runs that are next to each other put together. -/
def joinRuns : List Segment → List Segment
  | [] => []
  | run row :: rest =>
    match joinRuns rest with
    | run next :: others => run (row ++ next) :: others
    | others => run row :: others
  | group row mark :: rest => group row mark :: joinRuns rest

def erasedAll (parts : List Segment) : List Segment :=
  joinRuns ((parts.map erased).filter (· ≠ run []))

end Segment

namespace Node

/-- The node without anything that a match does not look at. -/
def erased : Node → Node
  | alternation left right => alternation left.erased right.erased
  | sequence parts => sequence (Segment.erasedAll parts)

end Node

-- ---------------------------------------------------------------------------
-- Phrases with the same outcomes
-- ---------------------------------------------------------------------------

namespace Phrase

/-- Wherever the one phrase has an outcome the other has it too, to the same extent. -/
def Refines (table : SymbolTable) (tokens : List String) (phrase phrase' : Phrase) : Prop :=
  ∀ pos stop s d, Evaluates table tokens phrase pos stop s d →
    Evaluates table tokens phrase' pos stop s d

/-- The phrases have the same outcomes, to the same extent. -/
structure Alike (table : SymbolTable) (tokens : List String) (phrase phrase' : Phrase) : Prop where
  refines : Refines table tokens phrase phrase'
  refined : Refines table tokens phrase' phrase

namespace Refines

theorem cons_item (item : Item) (h : Refines table tokens (.items row) (.items row')) :
    Refines table tokens (.items (item :: row)) (.items (item :: row')) := by
  intro pos stop s d he
  cases he with
  | emptyLiteral htext hr => exact .emptyLiteral htext (h _ _ _ _ hr)
  | literal htext hm hr => exact .literal htext hm (h _ _ _ _ hr)
  | literalFails htext hf => exact .literalFails htext hf
  | reference hd hn hr => exact .reference hd hn (h _ _ _ _ hr)
  | referenceFails hd hn => exact .referenceFails hd hn

theorem cons_run (hrow : Refines table tokens (.items row) (.items row'))
    (hrest : Refines table tokens (.segments rest) (.segments rest')) :
    Refines table tokens (.segments (.run row :: rest)) (.segments (.run row' :: rest')) := by
  intro pos stop s d he
  cases he with
  | run hi hr => exact .run (hrow _ _ _ _ hi) (hrest _ _ _ _ hr)
  | runFails hi => exact .runFails (hrow _ _ _ _ hi)

theorem cons_group (hrow : Refines table tokens (.items row) (.items row'))
    (hrest : Refines table tokens (.segments rest) (.segments rest')) :
    Refines table tokens (.segments (.group row mark :: rest))
      (.segments (.group row' mark' :: rest')) := by
  intro pos stop s d he
  cases he with
  | group hi hr => exact .group (hrow _ _ _ _ hi) (hrest _ _ _ _ hr)

theorem alternation (hl : Refines table tokens (.node left) (.node left'))
    (hr : Refines table tokens (.node right) (.node right')) :
    Refines table tokens (.node (.alternation left right))
      (.node (.alternation left' right')) := by
  intro pos stop s d he
  cases he with
  | alternation hleft hright => exact .alternation (hl _ _ _ _ hleft) (hr _ _ _ _ hright)

theorem sequence (h : Refines table tokens (.segments parts) (.segments parts')) :
    Refines table tokens (.node (.sequence parts)) (.node (.sequence parts')) := by
  intro pos stop s d he
  cases he with
  | sequence hparts => exact .sequence (h _ _ _ _ hparts)

end Refines

namespace Alike

theorem refl (phrase : Phrase) : Alike table tokens phrase phrase :=
  ⟨fun _ _ _ _ => id, fun _ _ _ _ => id⟩

theorem trans (h : Alike table tokens phrase phrase')
    (h' : Alike table tokens phrase' phrase'') : Alike table tokens phrase phrase'' :=
  ⟨fun _ _ _ _ he => h'.refines _ _ _ _ (h.refines _ _ _ _ he),
    fun _ _ _ _ he => h.refined _ _ _ _ (h'.refined _ _ _ _ he)⟩

theorem cons_run (hrow : Alike table tokens (.items row) (.items row'))
    (hrest : Alike table tokens (.segments rest) (.segments rest')) :
    Alike table tokens (.segments (.run row :: rest)) (.segments (.run row' :: rest')) :=
  ⟨hrow.refines.cons_run hrest.refines, hrow.refined.cons_run hrest.refined⟩

theorem cons_group (hrow : Alike table tokens (.items row) (.items row'))
    (hrest : Alike table tokens (.segments rest) (.segments rest')) :
    Alike table tokens (.segments (.group row mark :: rest))
      (.segments (.group row' mark' :: rest')) :=
  ⟨hrow.refines.cons_group hrest.refines, hrow.refined.cons_group hrest.refined⟩

end Alike

end Phrase

-- ---------------------------------------------------------------------------
-- Items and runs in a row
-- ---------------------------------------------------------------------------

namespace Evaluates

variable {next : List Item}

theorem append_items (h : Evaluates table tokens (.items row) pos (some mid) s d)
    (hnext : Evaluates table tokens (.items next) mid stop t e) :
    Evaluates table tokens (.items (row ++ next)) pos stop (s ∪ t) (max d e) := by
  induction row generalizing pos s d with
  | nil =>
    cases h
    simpa using hnext
  | cons item row ih =>
    cases h with
    | emptyLiteral htext hr => exact .emptyLiteral htext (ih hr)
    | literal htext hm hr => exact .literal htext hm (ih hr)
    | reference hd hn hr =>
      rw [Set.union_assoc, Set.insert_union, Extent.max_assoc]
      exact .reference hd hn (ih hr)

theorem append_items_of_fails (h : Evaluates table tokens (.items row) pos none s d) :
    Evaluates table tokens (.items (row ++ next)) pos none s d := by
  induction row generalizing pos s d with
  | nil => cases h
  | cons item row ih =>
    cases h with
    | emptyLiteral htext hr => exact .emptyLiteral htext (ih hr)
    | literal htext hm hr => exact .literal htext hm (ih hr)
    | literalFails htext hf => exact .literalFails htext hf
    | reference hd hn hr => exact .reference hd hn (ih hr)
    | referenceFails hd hn => exact .referenceFails hd hn

theorem exists_of_append_items
    (h : Evaluates table tokens (.items (row ++ next)) pos stop s d) :
    (∃ mid s₁ d₁ s₂ d₂, Evaluates table tokens (.items row) pos (some mid) s₁ d₁ ∧
      Evaluates table tokens (.items next) mid stop s₂ d₂ ∧ s = s₁ ∪ s₂ ∧ d = max d₁ d₂) ∨
    stop = none ∧ Evaluates table tokens (.items row) pos none s d := by
  induction row generalizing pos s d with
  | nil => exact .inl ⟨pos, ∅, 0, s, d, .noItems, h, by simp, by simp⟩
  | cons item row ih =>
    cases h with
    | emptyLiteral htext hr =>
      rcases ih hr with ⟨mid, s₁, d₁, s₂, d₂, hr, hn, hs, hd⟩ | ⟨hstop, hr⟩
      · exact .inl ⟨mid, s₁, d₁, s₂, d₂, .emptyLiteral htext hr, hn, hs, hd⟩
      · exact .inr ⟨hstop, .emptyLiteral htext hr⟩
    | literal htext hm hr =>
      rcases ih hr with ⟨mid, s₁, d₁, s₂, d₂, hr, hn, hs, hd⟩ | ⟨hstop, hr⟩
      · exact .inl ⟨mid, s₁, d₁, s₂, d₂, .literal htext hm hr, hn, hs, hd⟩
      · exact .inr ⟨hstop, .literal htext hm hr⟩
    | literalFails htext hf => exact .inr ⟨rfl, .literalFails htext hf⟩
    | reference hdef hnode hr =>
      rcases ih hr with ⟨mid, s₁, d₁, s₂, d₂, hrow, hn, rfl, rfl⟩ | ⟨hstop, hr⟩
      · refine .inl ⟨mid, _, _, s₂, d₂, .reference hdef hnode hrow, hn, ?_, ?_⟩
        · rw [Set.union_assoc, Set.insert_union]
        · rw [Extent.max_assoc]
      · exact .inr ⟨hstop, .reference hdef hnode hr⟩
    | referenceFails hdef hnode => exact .inr ⟨rfl, .referenceFails hdef hnode⟩

end Evaluates

namespace Phrase

theorem alike_noRun (rest : List Segment) :
    Alike table tokens (.segments (.run [] :: rest)) (.segments rest) where
  refines := by
    intro pos stop s d he
    cases he with
    | run hi hr =>
      cases hi
      simpa using hr
    | runFails hi => cases hi
  refined := by
    intro pos stop s d he
    simpa using Evaluates.run .noItems he

/-- Two runs next to each other are one run. -/
theorem alike_append_run (row next : List Item) (rest : List Segment) :
    Alike table tokens (.segments (.run row :: .run next :: rest))
      (.segments (.run (row ++ next) :: rest)) where
  refines := by
    intro pos stop s d he
    cases he with
    | run hi hr =>
      cases hr with
      | run hn hr =>
        rw [← Set.union_assoc, ← Extent.max_assoc]
        exact .run (hi.append_items hn) hr
      | runFails hn => exact .runFails (hi.append_items hn)
    | runFails hi => exact .runFails hi.append_items_of_fails
  refined := by
    intro pos stop s d he
    cases he with
    | run hi hr =>
      rcases hi.exists_of_append_items with ⟨mid, s₁, d₁, s₂, d₂, hrow, hn, rfl, rfl⟩ | ⟨hstop, -⟩
      · rw [Set.union_assoc, Extent.max_assoc]
        exact .run hrow (.run hn hr)
      · cases hstop
    | runFails hi =>
      rcases hi.exists_of_append_items with ⟨mid, s₁, d₁, s₂, d₂, hrow, hn, rfl, rfl⟩ | ⟨-, hrow⟩
      · exact .run hrow (.runFails hn)
      · exact .runFails hrow

-- ---------------------------------------------------------------------------
-- Erased nodes have the same outcomes
-- ---------------------------------------------------------------------------

theorem alike_erasedRow (row : List Item) :
    Alike table tokens (.items row) (.items (Item.erasedRow row)) := by
  induction row with
  | nil => exact .refl _
  | cons item row ih =>
    cases hitem : item.isEmptyLiteral with
    | false =>
      have hrow : Item.erasedRow (item :: row) = item :: Item.erasedRow row := by
        simp [Item.erasedRow, hitem]
      rw [hrow]
      exact ⟨ih.refines.cons_item item, ih.refined.cons_item item⟩
    | true =>
      have hrow : Item.erasedRow (item :: row) = Item.erasedRow row := by
        simp [Item.erasedRow, hitem]
      obtain rfl := Item.eq_of_isEmptyLiteral hitem
      rw [hrow]
      refine .trans ⟨fun pos stop s d he => ?_, fun _ _ _ _ he => .emptyLiteral rfl he⟩ ih
      cases he with
      | emptyLiteral _ hr => exact hr
      | literal hne => exact absurd rfl hne
      | literalFails hne => exact absurd rfl hne

theorem alike_erased (parts : List Segment) : Alike table tokens (.segments parts)
    (.segments ((parts.map Segment.erased).filter (· ≠ .run []))) := by
  induction parts with
  | nil => exact .refl _
  | cons part rest ih =>
    cases part with
    | run row =>
      refine ((alike_erasedRow row).cons_run ih).trans ?_
      cases hrow : Item.erasedRow row with
      | nil =>
        simp only [List.map_cons, Segment.erased, hrow]
        exact alike_noRun _
      | cons item others =>
        simp only [List.map_cons, Segment.erased, hrow]
        exact .refl _
    | group row mark => exact (alike_erasedRow row).cons_group ih

theorem alike_joinRuns (parts : List Segment) :
    Alike table tokens (.segments parts) (.segments (Segment.joinRuns parts)) := by
  induction parts with
  | nil => exact .refl _
  | cons part rest ih =>
    cases part with
    | run row =>
      refine (Alike.cons_run (.refl _) ih).trans ?_
      rw [Segment.joinRuns]
      split
      · rename_i next others hjoined
        rw [hjoined]
        exact alike_append_run row next others
      · exact .refl _
    | group row mark => exact Alike.cons_group (.refl _) ih

theorem alike_erased_node (node : Node) :
    Alike table tokens (.node node) (.node node.erased) := by
  induction node with
  | alternation left right ihl ihr =>
    exact ⟨ihl.refines.alternation ihr.refines, ihl.refined.alternation ihr.refined⟩
  | sequence parts =>
    have hparts : Alike table tokens (.segments parts) (.segments (Segment.erasedAll parts)) :=
      (alike_erased parts).trans (alike_joinRuns _)
    exact ⟨hparts.refines.sequence, hparts.refined.sequence⟩

end Phrase

/-- The nodes are the same but for what a match does not look at. -/
def Node.SameErased (node node' : Node) : Prop := node.erased = node'.erased

theorem Node.SameErased.refines (h : node.SameErased node') :
    node.Refines table tokens Eq node' := by
  intro pos stop s d he
  have herased := (Phrase.alike_erased_node node).refines _ _ _ _ he
  rw [h] at herased
  exact ⟨d, rfl, (Phrase.alike_erased_node node').refined _ _ _ _ herased⟩

-- ---------------------------------------------------------------------------
-- Matching
-- ---------------------------------------------------------------------------

namespace Matcher

end Matcher

end BackusNaur

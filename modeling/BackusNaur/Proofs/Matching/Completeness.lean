import BackusNaur.Proofs.Matching.LookAhead
import BackusNaur.Proofs.Matching.Soundness

/-!
# Matching is complete for predictive tables

`Matcher.run_complete`: where one token decides every choice, the input of a match is taken in
whenever it can be read as the start symbol at all.

An operand or a group that the reading does not take either does not match or takes in no token. If
it took one in, soundness would give a tree for it that begins with this token, and the look-ahead
sets of a predictive table exclude that.
-/

namespace BackusNaur

open SymbolTable (Follow LeadsTo Predictive)

variable {table : SymbolTable} {start : String} {tokens : List String} {phrase : Phrase}
  {after : String → Prop}

-- ---------------------------------------------------------------------------
-- Places in a definition
-- ---------------------------------------------------------------------------

/-- The phrase is a part of a definition that `start` leads to, at a place where these texts can
come after it. -/
inductive Placed (table : SymbolTable) (start : String) : Phrase → (String → Prop) → Prop
  | node : table.LeadsTo start owner whole → part.alternations ⊆ whole.alternations →
      part.sequences ⊆ whole.sequences → Placed table start (.node part) (table.Follow start owner)
  | segments : table.LeadsTo start owner whole → before ++ rest ∈ whole.sequences →
      Placed table start (.segments rest) (table.Follow start owner)
  | items : table.LeadsTo start owner whole → before ++ part :: rest ∈ whole.sequences →
      part.items = front ++ row →
      Placed table start (.items row) (Ahead table (.segments rest) (table.Follow start owner))

section

variable {left right node : Node} {part : Segment} {rest : List Segment} {item : Item}
  {row items : List Item}

theorem Placed.left_operand (h : Placed table start (.node (.alternation left right)) after) :
    Placed table start (.node left) after := by
  cases h with
  | node hl ha hs =>
    rw [Node.alternations, List.cons_subset, List.append_subset] at ha
    rw [Node.sequences, List.append_subset] at hs
    exact .node hl ha.2.1 hs.1

theorem Placed.right_operand (h : Placed table start (.node (.alternation left right)) after) :
    Placed table start (.node right) after := by
  cases h with
  | node hl ha hs =>
    rw [Node.alternations, List.cons_subset, List.append_subset] at ha
    rw [Node.sequences, List.append_subset] at hs
    exact .node hl ha.2.2 hs.2

theorem Placed.sequence (h : Placed table start (.node (.sequence parts)) after) :
    Placed table start (.segments parts) after := by
  cases h with
  | node hl _ hs =>
    have hm := hs List.mem_cons_self
    rw [← List.nil_append parts] at hm
    exact .segments hl hm

theorem Placed.segment (h : Placed table start (.segments (part :: rest)) after) :
    Placed table start (.items part.items) (Ahead table (.segments rest) after) := by
  cases h with
  | segments hl hs => exact .items hl hs (List.nil_append part.items).symm

theorem Placed.following (h : Placed table start (.segments (part :: rest)) after) :
    Placed table start (.segments rest) after := by
  cases h with
  | segments hl hs => exact .segments hl (by rwa [List.append_cons] at hs)

theorem Placed.past_item (h : Placed table start (.items (item :: row)) after) :
    Placed table start (.items row) after := by
  cases h with
  | items hl hs hi => exact .items hl hs (by rwa [List.append_cons] at hi)

theorem Placed.definition (h : Placed table start (.items (.reference name :: row)) after)
    (hd : table.find? name = some node) :
    Placed table start (.node node) (table.Follow start name) := by
  cases h with
  | items hl hs hi =>
    have hm := Node.mem_references hs (List.mem_append_right _ List.mem_cons_self)
      (hi ▸ List.mem_append_right _ List.mem_cons_self)
    exact .node (.reference hl hm hd) (List.Subset.refl _) (List.Subset.refl _)

theorem Placed.follow (h : Placed table start (.items (.reference name :: row)) after)
    (ha : Ahead table (.items row) after c) : table.Follow start name c := by
  cases h with
  | items hl hs hi =>
    have hr : table.Refers start _ name row _ := ⟨_, _, _, _, hl, hs, hi⟩
    rcases ha with ha | ⟨hn, ha | ⟨hr', ha⟩⟩
    · exact .inSegment hr ha
    · exact .inSequence hr hn ha
    · exact .afterOwner hr hn hr' ha

variable (hp : table.Predictive start)
include hp

theorem Placed.not_ahead_left (h : Placed table start (.node (.alternation left right)) after)
    (hr : First table (.node right) c) : ¬ Ahead table (.node left) after c := by
  cases h with
  | node hl ha hs =>
    have hm := ha List.mem_cons_self
    rintro (hf | ⟨hn, hf⟩)
    · exact hp.first_apart hl hm hf hr
    · exact hp.left_nullable hl hm hn hr hf

theorem Placed.not_ahead_right (h : Placed table start (.node (.alternation left right)) after)
    (hf : First table (.node left) c) : ¬ Ahead table (.node right) after c := by
  cases h with
  | node hl ha hs =>
    have hm := ha List.mem_cons_self
    rintro (hr | ⟨hn, hr⟩)
    · exact hp.first_apart hl hm hf hr
    · exact hp.right_nullable hl hm hn hf hr

theorem Placed.not_ahead_group
    (h : Placed table start (.segments (.group items mark :: rest)) after)
    (hf : First table (.items items) c) : ¬ Ahead table (.segments rest) after c := by
  cases h with
  | segments hl hs => exact hp.group hl hs hf

end

-- ---------------------------------------------------------------------------
-- Evaluation
-- ---------------------------------------------------------------------------

/-- The tokens at `pos` are `ts`, and what comes after them is among the given texts. -/
structure Reads (tokens : List String) (pos : Nat) (ts : List String) (after : String → Prop) :
    Prop where
  le : pos ≤ tokens.length
  here : ts <+: tokens.drop pos
  next : ∀ token, tokens[pos + ts.length]? = some token → after (Text.lower token)

theorem Reads.second (h : Reads tokens pos (ts ++ us) after) :
    Reads tokens (pos + ts.length) us after := by
  obtain ⟨rest, hr⟩ := h.here
  have hd : tokens.drop (pos + ts.length) = us ++ rest := by
    rw [← List.drop_drop, ← hr, List.append_assoc, List.drop_left]
  refine ⟨?_, ⟨rest, hd.symm⟩, fun token ht => h.next token ?_⟩
  · have hl := congrArg List.length hr
    have hle := h.le
    simp only [List.length_append, List.length_drop] at hl
    omega
  · rwa [List.length_append, ← Nat.add_assoc]

theorem Reads.head (h : Reads tokens pos (token :: ts) after) : tokens[pos]? = some token := by
  obtain ⟨rest, hr⟩ := h.here
  rw [← List.head?_drop, ← hr]
  rfl

/-- What is read as a phrase begins with a token that can be ahead where the phrase stands. -/
theorem ParseTree.ahead (tree : ParseTree table phrase ts) (hr : Reads tokens pos ts after) :
    ∀ token, tokens[pos]? = some token → Ahead table phrase after (Text.lower token) := by
  intro token ht
  cases ts with
  | nil => exact .inr ⟨tree.nullable rfl, hr.next token ht⟩
  | cons first rest =>
    obtain rfl := Option.some.inj (hr.head.symm.trans ht)
    exact .inl (tree.first rfl)

theorem Reads.first (h : Reads tokens pos (ts ++ us) after) (second : ParseTree table phrase us) :
    Reads tokens pos ts (Ahead table phrase after) where
  le := h.le
  here := (List.prefix_append ts us).trans h.here
  next := second.ahead h.second

/-- A phrase that cannot begin with what is ahead takes in no token. -/
theorem Evaluates.stop_le (h : Evaluates table tokens phrase pos stop s d)
    (hpos : pos ≤ tokens.length)
    (hn : ∀ token, tokens[pos]? = some token → ¬ First table phrase (Text.lower token)) :
    ∀ hi, stop = some hi → hi ≤ pos := by
  rintro hi rfl
  refine Nat.le_of_not_lt fun hlt => ?_
  have hb := h.stop_bounds hpos hi rfl
  have ht : tokens[pos]? = some tokens[pos] := List.getElem?_eq_getElem (by omega)
  obtain ⟨tree, -⟩ := h.readable hpos hi rfl
  refine hn _ ht (tree.first ?_)
  rw [← cons_extract ht hlt]
  rfl

/-- In a predictive table a phrase that stands where its tokens can be read as it takes in all of
them. -/
theorem ParseTree.evaluates_to (hp : table.Predictive start) (tree : ParseTree table phrase ts)
    (hc : Placed table start phrase after) (hr : Reads tokens pos ts after)
    (he : Evaluates table tokens phrase pos stop s d) : stop = some (pos + ts.length) := by
  induction tree generalizing after pos stop s d with
  | left tree ih =>
    cases he with
    | alternation hl hright =>
      -- The right operand may match too, but then it takes in nothing.
      have hle := hright.stop_le hr.le fun token ht hf =>
        hc.not_ahead_left hp hf (tree.ahead hr token ht)
      rw [ih hc.left_operand hr hl]
      exact Reach.farther_left fun k hk => Nat.le_add_right_of_le (hle k hk)
  | right tree ih =>
    cases he with
    | alternation hleft hr' =>
      have hle := hleft.stop_le hr.le fun token ht hf =>
        hc.not_ahead_right hp hf (tree.ahead hr token ht)
      rw [ih hc.right_operand hr hr']
      exact Reach.farther_right fun k hk => Nat.le_add_right_of_le (hle k hk)
  | sequence tree ih =>
    cases he with
    | sequence he => exact ih hc.sequence hr he
  | noSegments | noItems => cases he; rfl
  | run first second ihi ihr =>
    cases he with
    | run hi hrest =>
      cases ihi hc.segment (hr.first second) hi
      rw [ihr hc.following hr.second hrest, List.length_append, Nat.add_assoc]
    | runFails hi => cases ihi hc.segment (hr.first second) hi
  | group first second ihi ihr =>
    cases he with
    | group hi hrest =>
      cases ihi hc.segment (hr.first second) hi
      rw [ihr hc.following hr.second hrest, List.length_append, Nat.add_assoc]
  | skip second ih =>
    cases he with
    | @group _ _ reached _ _ _ _ _ _ _ hi hrest =>
      -- The items of a group that is skipped may match, but then over no tokens.
      have hle := hi.stop_le hr.le fun token ht hf =>
        hc.not_ahead_group hp hf (second.ahead hr token ht)
      have hstay : reached.getD pos = pos := by
        cases reached with
        | none => rfl
        | some k => exact Nat.le_antisymm (hle k rfl) (hi.stop_bounds hr.le k rfl).1
      rw [hstay] at hrest
      exact ih hc.following hr hrest
  | emptyLiteral ht _ ih =>
    cases he with
    | emptyLiteral _ he => exact ih hc.past_item hr he
    | literal hne | literalFails hne => exact absurd ht hne
  | @literal text token _ us hne hl _ ih =>
    have ht : tokens[pos]?.map Text.lower = some (Text.lower text) := by
      rw [hr.head, Option.map_some, hl]
    cases he with
    | emptyLiteral he => exact absurd he hne
    | literal _ _ he =>
      have hrest : Reads tokens (pos + [token].length) us after := Reads.second hr
      rw [ih hc.past_item hrest he, Nat.add_assoc, ← List.length_append]
      rfl
    | literalFails _ hf => exact absurd ht hf
  | reference hd first second ihn ihr =>
    -- What comes after the reference here is among what can come after its symbol anywhere.
    have hfirst : Reads tokens pos _ (table.Follow start _) :=
      ⟨hr.le, (hr.first second).here, fun token ht => hc.follow ((hr.first second).next token ht)⟩
    cases he with
    | reference hd' hn hrest =>
      cases hd.symm.trans hd'
      cases ihn (hc.definition hd) hfirst hn
      rw [ihr hc.past_item hr.second hrest, List.length_append, Nat.add_assoc]
    | referenceFails hd' hn =>
      cases hd.symm.trans hd'
      cases ihn (hc.definition hd) hfirst hn

-- ---------------------------------------------------------------------------
-- Matching
-- ---------------------------------------------------------------------------

/-- A match over a table that is predictive from the start symbol takes in all tokens if they can be
read as that symbol. -/
theorem Matcher.run_complete (m : Matcher) (stack : Nat) (start : String) (tokens : List String)
    (result : MatchResult) (hp : m.table.Predictive start) (hd : m.table.Derives start tokens)
    (h : m.run stack start tokens = .ok result) :
    result.matched = true ∧ result.stop = tokens.length := by
  obtain ⟨node, hn, stop, recorded, ⟨extent, he, -⟩, hshows⟩ := outcome_of_run_eq_ok h
  obtain ⟨node', hn', ⟨tree⟩⟩ := hd
  cases hn.symm.trans hn'
  have hc : Placed m.table start (.node node) (m.table.Follow start start) :=
    .node (.start hn) (List.Subset.refl _) (List.Subset.refl _)
  have hr : Reads tokens 0 tokens (m.table.Follow start start) :=
    ⟨Nat.zero_le _, List.prefix_rfl, by simp⟩
  obtain rfl := tree.evaluates_to hp hc hr he
  rw [Nat.zero_add] at hshows
  exact ⟨hshows.matched_iff.mpr rfl, hshows.stop_eq⟩

namespace Matcher

def brackets : Node :=
  .alternation (.sequence [.run [.literal "(", .reference "s", .literal ")"]])
    (.sequence [.group [.literal "x"] .optional])

def bracketed : Matcher where
  table := [("s", brackets)]
  maxDepth := 10
  closed := by decide

theorem bracketed_leadsTo (h : bracketed.table.LeadsTo "s" name node) :
    name = "s" ∧ node = brackets := by
  induction h with
  | start h => exact ⟨rfl, (Option.some.inj h).symm⟩
  | reference _ hm hd ih =>
    obtain ⟨-, rfl⟩ := ih
    obtain rfl := List.mem_singleton.mp hm
    exact ⟨rfl, (Option.some.inj hd).symm⟩

theorem bracketed_refers (h : bracketed.table.Refers "s" owner name back behind) :
    back = [.literal ")"] := by
  obtain ⟨whole, before, part, front, hl, hs, hi⟩ := h
  obtain ⟨-, rfl⟩ := bracketed_leadsTo hl
  have hp : part = .run [.literal "(", .reference "s", .literal ")"] ∨
      part = .group [.literal "x"] .optional := by
    simp [brackets, Node.sequences, List.append_eq_cons_iff] at hs
    tauto
  rcases hp with rfl | rfl
  · simp [Segment.items, List.cons_eq_append_iff] at hi
    exact hi.2.2
  · simp [Segment.items, List.cons_eq_append_iff] at hi

theorem bracketed_follow (h : bracketed.table.Follow "s" name c) : c = Text.lower ")" := by
  induction h with
  | inSegment hr hf =>
    obtain rfl := bracketed_refers hr
    simpa using hf
  | inSequence hr hn | afterOwner hr hn =>
    obtain rfl := bracketed_refers hr
    simp at hn

theorem bracketed_predictive : bracketed.table.Predictive "s" where
  first_apart hl ha hf hf' := by
    obtain ⟨-, rfl⟩ := bracketed_leadsTo hl
    obtain ⟨rfl, rfl⟩ := Prod.mk.inj (List.mem_singleton.mp ha)
    simp at hf hf'
    rw [hf] at hf'
    revert hf'
    decide
  left_nullable hl ha hn := by
    obtain ⟨-, rfl⟩ := bracketed_leadsTo hl
    obtain ⟨rfl, rfl⟩ := Prod.mk.inj (List.mem_singleton.mp ha)
    simp at hn
  right_nullable hl ha _ hf hfollow := by
    obtain ⟨-, rfl⟩ := bracketed_leadsTo hl
    obtain ⟨rfl, rfl⟩ := Prod.mk.inj (List.mem_singleton.mp ha)
    simp at hf
    rw [bracketed_follow hfollow] at hf
    revert hf
    decide
  group hl hs hf := by
    obtain ⟨-, rfl⟩ := bracketed_leadsTo hl
    simp [brackets, Node.sequences, List.append_eq_cons_iff] at hs
    obtain ⟨-, ⟨rfl, -⟩, rfl⟩ := hs
    simp at hf
    rintro (h | ⟨-, h⟩)
    · simp at h
    · rw [bracketed_follow h] at hf
      revert hf
      decide

theorem bracketed_derives : bracketed.table.Derives "s" ["(", "X", ")"] := by
  have hx : ParseTree bracketed.table (.node brackets) ["X"] :=
    .right (.sequence (.group (.literal (by decide) (by decide) .noItems) .noSegments))
  have hrest : ParseTree bracketed.table (.items [.reference "s", .literal ")"]) (["X"] ++ [")"]) :=
    .reference rfl hx (.literal (by decide) rfl .noItems)
  exact ⟨brackets, rfl,
    ⟨.left (.sequence (.run (.literal (by decide) rfl hrest) .noSegments))⟩⟩

theorem bracketed_run_complete : ∃ result, bracketed.run 8 "s" ["(", "X", ")"] = .ok result ∧
    result.matched = true ∧ result.stop = 3 := by
  have hrun : bracketed.run 8 "s" ["(", "X", ")"] =
      .ok ⟨true, 3, ["(", "X", ")"], [("s", ["[ X ]"])]⟩ := by
    decide +kernel
  exact ⟨_, hrun, run_complete bracketed 8 "s" _ _ bracketed_predictive bracketed_derives hrun⟩

end Matcher

end BackusNaur

import BackusNaur.Proofs.Matching.ParseTree
import BackusNaur.Proofs.Matching.Refinement

/-!
# Matching is sound

`Matcher.run_sound`: what a match takes in can be read as the start symbol, with a text in the
result for every reference in the tree, and every text in the result is that of tokens that can be
read as its symbol.

Spans of operands that were given up and of groups that were left out stay in the result. They
belong to no tree of the start symbol, so that they are genuine is proved on its own.
-/

namespace BackusNaur

variable {table : SymbolTable} {tokens : List String} {phrase : Phrase} {recorded : Set Span}

-- ---------------------------------------------------------------------------
-- Tokens between two positions
-- ---------------------------------------------------------------------------

theorem extract_self (tokens : List String) (lo : Nat) : tokens.extract lo lo = [] := by simp

theorem extract_append_extract {lo mid hi : Nat} (hl : lo ≤ mid) (hh : mid ≤ hi) :
    tokens.extract lo mid ++ tokens.extract mid hi = tokens.extract lo hi := by
  have hs : hi - lo = (mid - lo) + (hi - mid) := by omega
  have hd : tokens.drop mid = (tokens.drop lo).drop (mid - lo) := by
    rw [List.drop_drop, Nat.add_sub_cancel' hl]
  rw [List.extract_eq_take_drop, List.extract_eq_take_drop, List.extract_eq_take_drop, hs,
    List.take_add, hd]

theorem cons_extract {lo hi : Nat} (ht : tokens[lo]? = some token) (hh : lo < hi) :
    token :: tokens.extract (lo + 1) hi = tokens.extract lo hi := by
  obtain ⟨hlt, rfl⟩ := List.getElem?_eq_some_iff.mp ht
  have hs : hi - lo = (hi - (lo + 1)) + 1 := by omega
  rw [List.extract_eq_take_drop, List.extract_eq_take_drop, List.drop_eq_getElem_cons hlt, hs,
    List.take_succ_cons]

theorem length_extract {lo hi : Nat} (hh : hi ≤ tokens.length) :
    (tokens.extract lo hi).length = hi - lo := by
  rw [List.extract_eq_take_drop, List.length_take, List.length_drop]
  omega

-- ---------------------------------------------------------------------------
-- Evaluation
-- ---------------------------------------------------------------------------

/-- Tokens `lo` to `hi` can be read as the phrase, in a tree whose references are all recorded. -/
def Readable (table : SymbolTable) (tokens : List String) (phrase : Phrase) (lo hi : Nat)
    (recorded : Set Span) : Prop :=
  ∃ tree : ParseTree table phrase (tokens.extract lo hi),
    ∀ span ∈ tree.references lo, span ∈ recorded

theorem ParseTree.readable (tree : ParseTree table phrase ts) (he : ts = tokens.extract lo hi)
    (hr : ∀ span ∈ tree.references lo, span ∈ recorded) :
    Readable table tokens phrase lo hi recorded := by
  subst he
  exact ⟨tree, hr⟩

theorem ParseTree.add_width (tree : ParseTree table phrase (tokens.extract lo hi)) (hl : lo ≤ hi)
    (hh : hi ≤ tokens.length) : lo + tree.width = hi := by
  rw [width, length_extract hh]
  omega

/-- Two phrases next to each other make a third that has the references of both. -/
theorem Readable.append {first second whole : Phrase} {s t : Set Span}
    (hf : Readable table tokens first lo mid s) (hs : Readable table tokens second mid hi t)
    (hl : lo ≤ mid ∧ mid ≤ tokens.length) (hh : mid ≤ hi)
    (join : ∀ {ts us}, ParseTree table first ts → ParseTree table second us →
      ParseTree table whole (ts ++ us))
    (hj : ∀ {ts us} (a : ParseTree table first ts) (b : ParseTree table second us),
      (join a b).references lo = a.references lo ++ b.references (lo + a.width)) :
    Readable table tokens whole lo hi (s ∪ t) := by
  obtain ⟨a, ha⟩ := hf
  obtain ⟨b, hb⟩ := hs
  refine (join a b).readable (extract_append_extract hl.1 hh) ?_
  rw [hj, a.add_width hl.1 hl.2]
  exact List.forall_mem_append.mpr ⟨fun span h => .inl (ha span h), fun span h => .inr (hb span h)⟩

/-- The span lies in the input and its tokens can be read as its symbol. -/
structure Span.Genuine (table : SymbolTable) (tokens : List String) (span : Span) : Prop where
  le : span.lo ≤ span.hi
  le_length : span.hi ≤ tokens.length
  derives : table.Derives span.name (tokens.extract span.lo span.hi)

namespace Evaluates

theorem readable (h : Evaluates table tokens phrase pos stop s d) (hp : pos ≤ tokens.length) :
    ∀ hi, stop = some hi → Readable table tokens phrase pos hi s := by
  induction h with
  | @alternation _ _ i _ _ _ j _ _ _ _ ihl ihr =>
    intro hi h
    -- The end of an alternation is the end of one operand, and all spans of that one are recorded.
    rcases Reach.farther_eq i j with hf | hf <;> rw [hf] at h
    · obtain ⟨tree, ht⟩ := ihl hp hi h
      exact ⟨.left tree, fun span hs => .inl (ht span hs)⟩
    · obtain ⟨tree, ht⟩ := ihr hp hi h
      exact ⟨.right tree, fun span hs => .inr (ht span hs)⟩
  | sequence _ ih =>
    intro hi h
    obtain ⟨tree, ht⟩ := ih hp hi h
    exact ⟨.sequence tree, ht⟩
  | noSegments =>
    rintro hi ⟨⟩
    exact ParseTree.noSegments.readable (extract_self _ _).symm (by simp [ParseTree.references])
  | noItems =>
    rintro hi ⟨⟩
    exact ParseTree.noItems.readable (extract_self _ _).symm (by simp [ParseTree.references])
  | run hg hr ihi ihr =>
    intro hi h
    have hm := hg.stop_bounds hp _ rfl
    have hb := hr.stop_bounds hm.2 hi h
    exact (ihi hp _ rfl).append (ihr hm.2 hi h) hm hb.1 .run fun _ _ => rfl
  | @group _ _ reached _ _ _ _ _ _ _ hg hr ihi ihr =>
    intro hi h
    -- A group that does not match leaves its spans behind; they are in no tree.
    cases reached with
    | none =>
      obtain ⟨tree, ht⟩ := ihr hp hi h
      exact ⟨.skip tree, fun span hs => .inr (ht span hs)⟩
    | some mid =>
      have hm := hg.stop_bounds hp _ rfl
      have hb := hr.stop_bounds hm.2 hi h
      exact (ihi hp _ rfl).append (ihr hm.2 hi h) hm hb.1 .group fun _ _ => rfl
  | emptyLiteral he _ ih =>
    intro hi h
    obtain ⟨tree, ht⟩ := ih hp hi h
    exact ⟨.emptyLiteral he tree, ht⟩
  | literal hn hm hr ih =>
    intro hi h
    obtain ⟨token, ht, hl⟩ := Option.map_eq_some_iff.mp hm
    have hlt := (List.getElem?_eq_some_iff.mp ht).1
    have hb := hr.stop_bounds hlt hi h
    obtain ⟨tree, hs⟩ := ih hlt hi h
    exact (ParseTree.literal hn hl tree).readable (cons_extract ht hb.1) hs
  | reference hd hn hr ihn ihr =>
    intro hi h
    have hm := hn.stop_bounds hp _ rfl
    have hb := hr.stop_bounds hm.2 hi h
    obtain ⟨first, hf⟩ := ihn hp _ rfl
    obtain ⟨second, hs⟩ := ihr hm.2 hi h
    refine (ParseTree.reference hd first second).readable (extract_append_extract hm.1 hb.1) ?_
    rw [ParseTree.references, first.add_width hm.1 hm.2]
    refine List.forall_mem_cons.mpr ⟨.inr (.inl rfl), List.forall_mem_append.mpr ⟨?_, ?_⟩⟩
    · exact fun span h => .inl (hf span h)
    · exact fun span h => .inr (.inr (hs span h))
  | runFails | literalFails | referenceFails => intro hi h; cases h

/-- A span is recorded when its reference matches, so it stays genuine whatever becomes of the
phrase around it. -/
theorem genuine (h : Evaluates table tokens phrase pos stop s d) (hp : pos ≤ tokens.length) :
    ∀ span ∈ s, span.Genuine table tokens := by
  induction h with
  | alternation _ _ ihl ihr =>
    rintro span (h | h)
    · exact ihl hp span h
    · exact ihr hp span h
  | sequence _ ih | runFails _ ih | emptyLiteral _ _ ih | referenceFails _ _ ih => exact ih hp
  | noSegments | noItems | literalFails => exact fun _ h => h.elim
  | run hi _ ihi ihr =>
    rintro span (h | h)
    · exact ihi hp span h
    · exact ihr (hi.stop_bounds hp _ rfl).2 span h
  | group hg _ ihi ihr =>
    rintro span (h | h)
    · exact ihi hp span h
    · exact ihr (hg.getD_bounds hp).2 span h
  | literal _ hm _ ih => exact ih (lt_length_of_lower_eq hm)
  | reference hd hn _ ihn ihr =>
    have hm := hn.stop_bounds hp _ rfl
    rintro span (h | rfl | h)
    · exact ihn hp span h
    · obtain ⟨tree, -⟩ := hn.readable hp _ rfl
      exact ⟨hm.1, hm.2, _, hd, ⟨tree⟩⟩
    · exact ihr hm.2 span h

end Evaluates

-- ---------------------------------------------------------------------------
-- Matching
-- ---------------------------------------------------------------------------

/-- What a result says of its input holds of the table as a grammar. -/
theorem Matcher.run_sound (m : Matcher) (stack : Nat) (start : String) (tokens : List String)
    (result : MatchResult) (h : m.run stack start tokens = .ok result) :
    (result.stop = -1 ∨ 0 ≤ result.stop ∧ result.stop ≤ tokens.length) ∧
    (result.matched = true ↔ result.stop = tokens.length) ∧
    (0 ≤ result.stop → ∃ node, m.table.find? start = some node ∧
      ∃ tree : ParseTree m.table (.node node) (tokens.extract 0 result.stop.toNat),
        ∀ span ∈ tree.references 0, span.text tokens ∈ result.spans.textsOf span.name) ∧
    ∀ entry ∈ result.spans, ∀ text ∈ entry.2, ∃ lo hi : Nat, lo ≤ hi ∧ hi ≤ tokens.length ∧
      text = spanText tokens lo hi ∧ m.table.Derives entry.1 (tokens.extract lo hi) := by
  obtain ⟨node, hd, stop, recorded, ⟨depth, he, -⟩, hshows⟩ := outcome_of_run_eq_ok h
  have hstop := hshows.stop_eq
  refine ⟨?_, ?_, ?_, ?_⟩
  · cases stop with
    | none => exact .inl hstop
    | some hi =>
      have hb := he.stop_bounds (Nat.zero_le _) hi rfl
      simp only [Option.elim_some] at hstop
      omega
  · rw [hshows.matched_iff, hstop]
    cases stop with
    | none => simp
    | some hi =>
      simp only [Option.some.injEq, Option.elim_some]
      omega
  · intro hge
    cases stop with
    | none =>
      rw [hstop] at hge
      simp at hge
    | some hi =>
      obtain ⟨tree, ht⟩ := he.readable (Nat.zero_le _) hi rfl
      rw [hstop]
      refine ⟨node, hd, tree, fun span hs => ?_⟩
      exact hshows.spans.mem_textsOf.mpr ⟨span, ht span hs, rfl, rfl⟩
  · intro entry hentry text htext
    obtain ⟨span, hs, hname, rfl⟩ := (hshows.spans.mem_texts entry hentry text).mp htext
    have hgen := he.genuine (Nat.zero_le _) span hs
    exact ⟨span.lo, span.hi, hgen.le, hgen.le_length, rfl, hname ▸ hgen.derives⟩

theorem Matcher.nested_run_sound : ∃ node, nested.table.find? "s" = some node ∧
    ∃ tree : ParseTree nested.table (.node node) ["a", "A"], ∀ span ∈ tree.references 0,
      span.text ["a", "A"] ∈ SpanTable.textsOf [("s", ["[ A ]"])] span.name :=
  (run_sound nested 7 "s" ["a", "A"] _ nested_run).2.2.1 (by decide)

end BackusNaur

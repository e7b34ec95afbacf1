import BackusNaur.Proofs.Matching.Soundness

/-!
# Matching from a later token

What is found from a position on depends on the tokens from there on and on nothing before it. So a
part of the input that a symbol covered is what a match of that symbol finds at the start of the
tokens from there on, and it finds it with less depth and fewer frames than the search that
recorded it.

`Matcher.run_recorded`: this holds of every text in a result, those of operands that were given up
and of groups that were left out as well.
-/

namespace BackusNaur

variable {table : SymbolTable} {tokens : List String} {phrase : Phrase}

-- ---------------------------------------------------------------------------
-- Positions further on
-- ---------------------------------------------------------------------------

def Span.shift (n : Nat) (span : Span) : Span := ⟨span.name, span.lo + n, span.hi + n⟩

theorem Span.text_shift (hn : n ≤ tokens.length) (span : Span) :
    (span.shift n).text tokens = span.text (tokens.drop n) := by
  have hbound : ((tokens.drop n).length : Int) < span.hi ↔
      (tokens.length : Int) < ((span.hi + n : Nat) : Int) := by
    rw [List.length_drop]
    omega
  have hcovered : (tokens.take (span.hi + n)).drop (span.lo + n) =
      ((tokens.drop n).take span.hi).drop span.lo := by
    rw [List.drop_take, List.drop_take, List.drop_drop, Nat.add_sub_add_right, Nat.add_comm n]
  have hnonneg : ∀ k : Nat, ¬ (k : Int) < 0 := by omega
  simp only [text, shift, spanText, hbound, hnonneg, hcovered, false_or, if_false,
    Int.toNat_natCast]

theorem Reach.farther_map (n : Nat) (i j : Option Nat) :
    farther (i.map (· + n)) (j.map (· + n)) = (farther i j).map (· + n) := by
  cases i <;> cases j <;> simp [farther, Nat.add_max_add_right]

/-- A derivation of the span's symbol covers the span. It goes less far down than `d` and records
nothing that is not in `s`. -/
def Span.Recorded (table : SymbolTable) (tokens : List String) (s : Set Span) (d : Extent)
    (span : Span) : Prop :=
  ∃ node s' d', table.find? span.name = some node ∧
    Evaluates table tokens (.node node) span.lo (some span.hi) s' d' ∧ s' ⊆ s ∧
      ∀ g : Gauge, g.of d' < g.of d

theorem Span.Recorded.mono (h : span.Recorded table tokens s d) (hs : s ⊆ t)
    (hd : ∀ g : Gauge, g.of d ≤ g.of e) : Span.Recorded table tokens t e span := by
  obtain ⟨node, s', d', hn, he, hsub, hlt⟩ := h
  exact ⟨node, s', d', hn, he, hsub.trans hs, fun g => Nat.lt_of_lt_of_le (hlt g) (hd g)⟩

namespace Evaluates

/-- Tokens before the position have no part in what is found. -/
theorem exists_drop (h : Evaluates table tokens phrase pos stop s d) (hpos : pos = lo + n) :
    ∃ stop' s', stop = stop'.map (· + n) ∧ s = Span.shift n '' s' ∧
      Evaluates table (tokens.drop n) phrase lo stop' s' d := by
  induction h generalizing lo with
  | alternation _ _ ihl ihr =>
    obtain ⟨i, s, rfl, rfl, hl⟩ := ihl hpos
    obtain ⟨j, t, rfl, rfl, hr⟩ := ihr hpos
    exact ⟨_, _, Reach.farther_map n i j, (Set.image_union ..).symm, .alternation hl hr⟩
  | sequence _ ih =>
    obtain ⟨stop, s, rfl, rfl, h⟩ := ih hpos
    exact ⟨_, _, rfl, rfl, .sequence h⟩
  | noSegments => exact ⟨some lo, ∅, by simp [hpos], by simp, .noSegments⟩
  | noItems => exact ⟨some lo, ∅, by simp [hpos], by simp, .noItems⟩
  | run _ _ ihi ihr =>
    obtain ⟨mid, s, hmid, rfl, hi⟩ := ihi hpos
    obtain ⟨mid, rfl, rfl⟩ := Option.map_eq_some_iff.mp hmid.symm
    obtain ⟨stop, t, rfl, rfl, hr⟩ := ihr rfl
    exact ⟨_, _, rfl, (Set.image_union ..).symm, .run hi hr⟩
  | runFails _ ih =>
    obtain ⟨stop, s, hstop, rfl, h⟩ := ih hpos
    obtain rfl := Option.map_eq_none_iff.mp hstop.symm
    exact ⟨none, _, rfl, rfl, .runFails h⟩
  | group _ _ ihi ihr =>
    obtain ⟨reached, s, rfl, rfl, hi⟩ := ihi hpos
    obtain rfl := hpos
    have hreached : (reached.map (· + n)).getD (lo + n) = reached.getD lo + n := by
      cases reached <;> rfl
    obtain ⟨stop, t, rfl, rfl, hr⟩ := ihr hreached
    exact ⟨_, _, rfl, (Set.image_union ..).symm, .group hi hr⟩
  | emptyLiteral he _ ih =>
    obtain ⟨stop, s, rfl, rfl, h⟩ := ih hpos
    exact ⟨_, _, rfl, rfl, .emptyLiteral he h⟩
  | literal hn hm _ ih =>
    obtain ⟨stop, s, rfl, rfl, h⟩ := @ih (lo + 1) (by omega)
    refine ⟨_, _, rfl, rfl, .literal hn ?_ h⟩
    rwa [List.getElem?_drop, Nat.add_comm, ← hpos]
  | literalFails hn hf =>
    refine ⟨none, ∅, rfl, by simp, .literalFails hn ?_⟩
    rwa [List.getElem?_drop, Nat.add_comm, ← hpos]
  | reference hd _ _ ihn ihr =>
    obtain ⟨mid, s, hmid, rfl, hn⟩ := ihn hpos
    obtain ⟨mid, rfl, rfl⟩ := Option.map_eq_some_iff.mp hmid.symm
    obtain ⟨stop, t, rfl, rfl, hr⟩ := ihr rfl
    refine ⟨_, _, rfl, ?_, .reference hd hn hr⟩
    rw [Set.image_union, Set.image_insert_eq, hpos]
    rfl
  | referenceFails hd _ ih =>
    obtain ⟨stop, s, hstop, rfl, h⟩ := ih hpos
    obtain rfl := Option.map_eq_none_iff.mp hstop.symm
    exact ⟨none, _, rfl, rfl, .referenceFails hd h⟩

theorem recorded_of_mem (h : Evaluates table tokens phrase pos stop s d) {span : Span}
    (hs : span ∈ s) : span.Recorded table tokens s d := by
  have hpos := Gauge.perReference_pos
  induction h with
  | @alternation _ _ _ _ d _ _ _ e _ _ ihl ihr =>
    have hle (g : Gauge) : g.of d ≤ g.of (max d e).operand ∧ g.of e ≤ g.of (max d e).operand := by
      simp only [Gauge.of_operand, Gauge.of_max]
      omega
    rcases hs with hs | hs
    · exact (ihl hs).mono Set.subset_union_left fun g => (hle g).1
    · exact (ihr hs).mono Set.subset_union_right fun g => (hle g).2
  | sequence _ ih | runFails _ ih | emptyLiteral _ _ ih | literal _ _ _ ih => exact ih hs
  | noSegments | noItems | literalFails => exact hs.elim
  | run _ _ ihi ihr | group _ _ ihi ihr =>
    rcases hs with hs | hs
    · exact (ihi hs).mono Set.subset_union_left fun g => by simp
    · exact (ihr hs).mono Set.subset_union_right fun g => by simp
  | @reference _ _ _ _ _ d _ _ _ e hd hn _ ihn ihr =>
    have hlt (g : Gauge) : g.of d < g.of (max d.reference e) := by
      have := hpos g
      simp only [Gauge.of_max, Gauge.of_reference]
      omega
    rcases hs with hs | rfl | hs
    · exact (ihn hs).mono Set.subset_union_left fun g => (hlt g).le
    · exact ⟨_, _, _, hd, hn, Set.subset_union_left, hlt⟩
    · exact (ihr hs).mono ((Set.subset_insert _ _).trans Set.subset_union_right)
        fun g => by simp
  | referenceFails _ _ ih => exact (ih hs).mono subset_rfl fun g => by simp

end Evaluates

-- ---------------------------------------------------------------------------
-- Matching
-- ---------------------------------------------------------------------------

/-- Every text in a result is that of some tokens that a match of its symbol takes in, from where
they begin, under the same bound and on the same stack. That match has no text that the result has
not. -/
theorem Matcher.run_recorded (m : Matcher) (stack : Nat) (start : String) (tokens : List String)
    (result : MatchResult) (h : m.run stack start tokens = .ok result) :
    ∀ entry ∈ result.spans, ∀ text ∈ entry.2, ∃ lo hi : Nat, lo ≤ hi ∧ hi ≤ tokens.length ∧
      spanText tokens lo hi = text ∧ ∃ inner, m.run stack entry.1 (tokens.drop lo) = .ok inner ∧
        inner.stop = (hi : Int) - lo ∧
        ∀ name, inner.spans.textsOf name ⊆ result.spans.textsOf name := by
  intro entry hentry text htext
  obtain ⟨node, hd, stop, recorded, ⟨extent, he, hdepth, hframes⟩, hshows⟩ := outcome_of_run_eq_ok h
  obtain ⟨span, hs, hname, rfl⟩ := (hshows.spans.mem_texts entry hentry text).mp htext
  obtain ⟨inside, s, d, hinside, hspan, hsub, hlt⟩ := he.recorded_of_mem hs
  have hgen := he.genuine (Nat.zero_le _) span hs
  obtain ⟨stop', s', hstop, rfl, hdrop⟩ := @Evaluates.exists_drop _ _ _ _ _ _ _ 0 span.lo hspan
    (Nat.zero_add _).symm
  obtain ⟨width, rfl, hwidth⟩ := Option.map_eq_some_iff.mp hstop.symm
  have hd' : d.depth < extent.depth := hlt .depth
  have hf' : d.frames < extent.frames := hlt .frames
  have ho : m.Outcome stack inside (tokens.drop span.lo) _ _ := ⟨d, hdrop, by omega, by omega⟩
  obtain ⟨inner, hinner, hinnerShows⟩ := exists_run_eq_ok hinside ho
  refine ⟨span.lo, span.hi, hgen.le, hgen.le_length, rfl, inner, hname ▸ hinner, ?_, ?_⟩
  · rw [hinnerShows.stop_eq, ← hwidth]
    simp
  · intro name text htext
    obtain ⟨span', hs', rfl, rfl⟩ := hinnerShows.spans.mem_textsOf.mp htext
    refine hshows.spans.mem_textsOf.mpr ⟨span'.shift span.lo, hsub ⟨span', hs', rfl⟩, rfl, ?_⟩
    exact span'.text_shift (hgen.le.trans hgen.le_length)

theorem Matcher.nested_run_recorded : ∃ lo hi : Nat, lo ≤ hi ∧ hi ≤ 2 ∧
    spanText ["a", "A"] lo hi = "[ A ]" ∧
    ∃ inner, nested.run 7 "s" (["a", "A"].drop lo) = .ok inner ∧ inner.stop = (hi : Int) - lo ∧
      ∀ name, inner.spans.textsOf name ⊆ SpanTable.textsOf [("s", ["[ A ]"])] name :=
  run_recorded nested 7 "s" ["a", "A"] _ nested_run ("s", ["[ A ]"]) (.head _) "[ A ]" (.head _)

end BackusNaur

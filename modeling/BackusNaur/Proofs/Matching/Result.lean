import BackusNaur.Proofs.Matching.Evaluation
import Mathlib.Data.List.Sort

/-!
# What a result shows

A result shows an outcome of an evaluation: its end, and the texts of the recorded spans by name.
`MatchResult.Shows` says so without the functions that build results, and
`MatchResult.Shows.unique` that there is one result for each outcome.
-/

namespace BackusNaur

variable {tokens : List String} {recorded : Set Span} {stop : Option Nat}

namespace SpanTable

/-- The table lists the texts of a set of spans, every name and every text once and in order. -/
structure Lists (table : SpanTable) (tokens : List String) (recorded : Set Span) : Prop where
  names_increasing : (table.map Prod.fst).Pairwise (· < ·)
  texts_increasing : ∀ entry ∈ table, entry.2.Pairwise (· < ·)
  mem_names : ∀ name, name ∈ table.map Prod.fst ↔ ∃ span ∈ recorded, span.name = name
  mem_texts : ∀ entry ∈ table, ∀ text,
    text ∈ entry.2 ↔ ∃ span ∈ recorded, span.name = entry.1 ∧ span.text tokens = text

theorem map_fst_ofLists {lists : List (String × List String)} :
    (ofLists lists).map Prod.fst = Text.sortedSet (lists.map Prod.fst) := by
  simp [ofLists, Function.comp_def]

theorem lists_ofSpans (tokens : List String) (spans : List Span) :
    (ofSpans tokens spans).Lists tokens (spanSet spans) where
  names_increasing := by
    rw [ofSpans, map_fst_ofLists]
    exact Text.pairwise_sortedSet _
  texts_increasing := by
    intro entry he
    obtain ⟨name, -, rfl⟩ := List.mem_map.mp he
    exact Text.pairwise_sortedSet _
  mem_names := by
    intro name
    rw [ofSpans, map_fst_ofLists, Text.mem_sortedSet]
    simp
  mem_texts := by
    intro entry he text
    obtain ⟨name, -, rfl⟩ := List.mem_map.mp he
    simp [Text.mem_sortedSet, eq_comm (a := text), and_assoc]

variable {table other : SpanTable}

theorem Lists.mem_textsOf (h : table.Lists tokens recorded) :
    text ∈ table.textsOf name ↔ ∃ span ∈ recorded, span.name = name ∧ span.text tokens = text := by
  unfold textsOf
  cases hl : List.lookup name table with
  | none =>
    have hn : name ∉ table.map Prod.fst := by
      intro hm
      obtain ⟨entry, he, rfl⟩ := List.mem_map.mp hm
      simpa using List.lookup_eq_none_iff.mp hl entry he
    refine iff_of_false (by simp) ?_
    rintro ⟨span, hs, hname, -⟩
    exact hn ((h.mem_names name).mpr ⟨span, hs, hname⟩)
  | some texts =>
    obtain ⟨before, after, rfl, -⟩ := List.lookup_eq_some_iff.mp hl
    exact h.mem_texts (name, texts) (by simp) text

theorem Lists.unique (h : table.Lists tokens recorded) (h' : other.Lists tokens recorded) :
    table = other := by
  have hnames : table.map Prod.fst = other.map Prod.fst :=
    h.names_increasing.eq_of_mem_iff h'.names_increasing fun name =>
      (h.mem_names name).trans (h'.mem_names name).symm
  refine List.ext_getElem (by simpa using congrArg List.length hnames) fun i hi hi' => ?_
  have hname : table[i].1 = other[i].1 := by
    simpa [hi, hi'] using congrArg (·[i]?) hnames
  have htexts : table[i].2 = other[i].2 := by
    refine (h.texts_increasing _ (List.getElem_mem hi)).eq_of_mem_iff
      (h'.texts_increasing _ (List.getElem_mem hi')) fun text => ?_
    rw [h.mem_texts _ (List.getElem_mem hi), h'.mem_texts _ (List.getElem_mem hi'), hname]
  exact Prod.ext hname htexts

end SpanTable

namespace MatchResult

/-- The result tells an outcome for the input `tokens`; an end of -1 tells that nothing matched. -/
structure Shows (result : MatchResult) (tokens : List String) (stop : Option Nat)
    (recorded : Set Span) : Prop where
  tokens_eq : result.tokens = tokens
  stop_eq : result.stop = stop.elim (-1) (fun n => (n : Int))
  matched_iff : result.matched = true ↔ stop = some tokens.length
  spans : result.spans.Lists tokens recorded

theorem shows_result (tokens : List String) (r : Reach) :
    (r.result tokens).Shows tokens r.stop (spanSet r.spans) where
  tokens_eq := rfl
  stop_eq := by cases h : r.stop <;> simp [Reach.result, h]
  matched_iff := by simp [Reach.result]
  spans := SpanTable.lists_ofSpans tokens r.spans

theorem Shows.unique {result other : MatchResult} (h : result.Shows tokens stop recorded)
    (h' : other.Shows tokens stop recorded) : result = other := by
  have hm : result.matched = other.matched :=
    Bool.eq_iff_iff.mpr (h.matched_iff.trans h'.matched_iff.symm)
  cases result
  cases other
  simp only [mk.injEq]
  exact ⟨hm, h.stop_eq.trans h'.stop_eq.symm, h.tokens_eq.trans h'.tokens_eq.symm,
    h.spans.unique h'.spans⟩

end MatchResult

end BackusNaur

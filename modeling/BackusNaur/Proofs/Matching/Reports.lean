import BackusNaur.Proofs.Matching.Lookups
import BackusNaur.Proofs.Matching.Soundness
import BackusNaur.Proofs.Reading.Reordering
import BackusNaur.Proofs.Reading.Soundness
import BackusNaur.Report
import Mathlib.Data.String.Basic

/-!
# What a report tells

A report can be read back: no name and no text of a span has a line break in it, so the lines of a
report are the lines that were put into it, and the empty line after each symbol ends its section.
A text of a span can be read back too, for the tokens in it are words.

`Grammar.report_determines`: matches in grammars that were read from texts have the same report only
if they show the same spans, which tell the tokens that each symbol covered.
-/

namespace BackusNaur

-- ---------------------------------------------------------------------------
-- Words and lines put together
-- ---------------------------------------------------------------------------

namespace Text

variable {text other word : String}

def IsSingle (text : String) : Prop := text ≠ "" ∧ ∀ c ∈ text.toList, isBlank c = false

def Unbroken (text : String) : Prop := ∀ c ∈ text.toList, isLineBreak c = false

theorem isSingle_of_mem_wordsOf : ∀ word ∈ wordsOf text, IsSingle word := by
  refine List.forall_mem_map.mpr fun word hword => ⟨?_, ?_⟩
  · rw [ne_eq, ← String.toList_inj, String.toList_ofList]
    exact ne_nil_of_mem_words word hword
  · rw [String.toList_ofList]
    exact (infix_of_mem_words hword).2

theorem words_join_spaced {row : List String} (h : ∀ word ∈ row, IsSingle word)
    (rest : List Char) : words ((String.join (row.map (· ++ " "))).toList ++ rest) =
      row.map String.toList ++ words rest := by
  rw [String.toList_join]
  induction row with
  | nil => rfl
  | cons word row ih =>
    obtain ⟨⟨hne, hsolid⟩, hrow⟩ := List.forall_mem_cons.mp h
    have hspaced : (word ++ " ").toList = word.toList ++ [' '] := String.toList_append
    rw [List.map_cons, List.flatMap_cons, hspaced, List.append_assoc, List.append_assoc,
      List.singleton_append, words_append_cons (by decide), ih hrow,
      words_of_forall_not_blank (by simpa using hne) hsolid]
    rfl

theorem unbroken_of_forall_not_blank (h : ∀ c ∈ text.toList, isBlank c = false) :
    Unbroken text := fun c hc => isLineBreak_of_isBlank_eq_false (h c hc)

theorem Unbroken.append (h : Unbroken text) (ho : Unbroken other) : Unbroken (text ++ other) := by
  rw [Unbroken, String.toList_append]
  exact List.forall_mem_append.mpr ⟨h, ho⟩

theorem Unbroken.join {texts : List String} (h : ∀ text ∈ texts, Unbroken text) :
    Unbroken (String.join texts) := by
  intro c hc
  rw [String.toList_join, List.mem_flatMap] at hc
  obtain ⟨text, htext, hc⟩ := hc
  exact h text htext c hc

theorem lines_join_newline {texts : List String} (h : ∀ text ∈ texts, Unbroken text) :
    lines (String.join (texts.map (· ++ "\n"))).toList = texts.map String.toList := by
  rw [String.toList_join]
  induction texts with
  | nil => rfl
  | cons text texts ih =>
    obtain ⟨htext, htexts⟩ := List.forall_mem_cons.mp h
    rw [List.map_cons, List.flatMap_cons, String.toList_append, List.append_assoc]
    exact (lines_append_newline htext _).trans (congrArg _ (ih htexts))

end Text

-- ---------------------------------------------------------------------------
-- Texts of spans
-- ---------------------------------------------------------------------------

namespace Span

variable {tokens : List String} {span : Span}

theorem text_eq (hh : span.hi ≤ tokens.length) : span.text tokens =
    "[ " ++ String.join ((tokens.extract span.lo span.hi).map (· ++ " ")) ++ "]" := by
  have hin : ¬ (((span.lo : Nat) : Int) < 0 ∨ (tokens.length : Int) < span.hi) := by omega
  have hnonneg : ¬ ((span.hi : Nat) : Int) < 0 := by omega
  simp only [text, spanText, hin, hnonneg, if_false, Int.toNat_natCast, List.extract_eq_drop_take']

theorem isSingle_of_mem_extract (htokens : ∀ token ∈ tokens, Text.IsSingle token) (lo hi : Nat) :
    ∀ token ∈ tokens.extract lo hi, Text.IsSingle token := by
  intro token htoken
  rw [List.extract_eq_take_drop] at htoken
  exact htokens token (List.mem_of_mem_drop (List.mem_of_mem_take htoken))

/-- The words of the text of a span are the tokens that it covers, between brackets. -/
theorem wordsOf_text (htokens : ∀ token ∈ tokens, Text.IsSingle token)
    (hh : span.hi ≤ tokens.length) :
    Text.wordsOf (span.text tokens) = "[" :: tokens.extract span.lo span.hi ++ ["]"] := by
  have hrow := isSingle_of_mem_extract htokens span.lo span.hi
  have hopen : ("[ ").toList = ['[', ' '] := rfl
  rw [Text.wordsOf, text_eq hh, String.toList_append, String.toList_append, hopen,
    List.append_assoc, List.cons_append, List.singleton_append,
    Text.words_cons_cons_of_blank (by decide) (by decide), Text.words_join_spaced hrow]
  simp [Text.words_singleton, Text.isBlank]

theorem unbroken_text (htokens : ∀ token ∈ tokens, Text.IsSingle token)
    (hh : span.hi ≤ tokens.length) : Text.Unbroken (span.text tokens) := by
  have hrow : ∀ text ∈ (tokens.extract span.lo span.hi).map (· ++ " "), Text.Unbroken text := by
    refine List.forall_mem_map.mpr fun token htoken => ?_
    obtain ⟨-, hsolid⟩ := isSingle_of_mem_extract htokens span.lo span.hi token htoken
    exact (Text.unbroken_of_forall_not_blank hsolid).append
      (by simp [Text.Unbroken, Text.isLineBreak])
  rw [text_eq hh]
  refine .append (.append ?_ (.join hrow)) ?_ <;> simp [Text.Unbroken, Text.isLineBreak]

end Span

-- ---------------------------------------------------------------------------
-- Reading a report back
-- ---------------------------------------------------------------------------

namespace SpanTable

/-- What a report shows can be read back: every name has one entry, with some text in it, and there
is no line break in the names and the texts. -/
structure Printable (table : SpanTable) : Prop where
  names_nodup : (table.map Prod.fst).Nodup
  texts_ne_nil : ∀ entry ∈ table, entry.2 ≠ []
  name_unbroken : ∀ entry ∈ table, Text.Unbroken entry.1
  texts_unbroken : ∀ entry ∈ table, ∀ text ∈ entry.2, Text.Unbroken text

/-- The lines of a report under the name of this entry, but for the empty one after them. -/
def paragraph (entry : String × List String) : List String :=
  s!"Matches for <{entry.1}>:" :: entry.2.map (">>> " ++ ·)

theorem paragraph_inj {entry other : String × List String} :
    paragraph entry = paragraph other ↔ entry = other := by
  refine ⟨fun h => ?_, congrArg paragraph⟩
  obtain ⟨hname, htexts⟩ := List.cons.inj h
  refine Prod.ext ?_ ?_
  · exact (String.append_right_inj _).mp ((String.append_left_inj _).mp hname)
  · exact (List.map_inj_right fun _ _ => (String.append_right_inj _).mp).mp htexts

theorem ne_empty_of_mem_paragraph {entry : String × List String} :
    ∀ line ∈ paragraph entry, (line == "") = false := by
  simp [paragraph, toString]

theorem unbroken_of_mem_paragraph {entry : String × List String} (hname : Text.Unbroken entry.1)
    (htexts : ∀ text ∈ entry.2, Text.Unbroken text) :
    ∀ line ∈ paragraph entry, Text.Unbroken line := by
  refine List.forall_mem_cons.mpr ⟨?_, List.forall_mem_map.mpr fun text htext => ?_⟩
  · refine .append (.append ?_ hname) ?_ <;> simp [toString, Text.Unbroken, Text.isLineBreak]
  · exact .append (by simp [Text.Unbroken, Text.isLineBreak]) (htexts text htext)

variable {table : SpanTable}

theorem textsOf_of_mem (h : (table.map Prod.fst).Nodup) {entry : String × List String}
    (hentry : entry ∈ table) : table.textsOf entry.1 = entry.2 := by
  have hfound : List.lookup entry.1 table = some entry.2 := by
    obtain ⟨before, after, rfl⟩ := List.append_of_mem hentry
    refine List.lookup_eq_some_iff.mpr ⟨before, after, rfl, fun other hother => ?_⟩
    rw [List.map_append, List.nodup_append] at h
    have hne := h.2.2 other.1 (List.mem_map_of_mem hother) entry.1 (.head _)
    simpa using hne.symm
  rw [textsOf, hfound]
  rfl

theorem pieces_flatMap_paragraph (table : SpanTable) :
    pieces (· == "") (table.flatMap fun entry => paragraph entry ++ [""]) =
      table.map paragraph ++ [[]] := by
  induction table with
  | nil => rfl
  | cons entry table ih =>
    rw [List.flatMap_cons, List.append_assoc, List.singleton_append, pieces_append_cons rfl,
      pieces_of_forall_not ne_empty_of_mem_paragraph, ih]
    rfl

end SpanTable

namespace MatchResult

open SpanTable

variable {r r' : MatchResult}

theorem lines_report (h : r.spans.Printable) : Text.lines r.report.toList =
    (r.spans.flatMap fun entry => paragraph entry ++ [""]).map String.toList := by
  have hreport : (r.spans.map Prod.fst).flatMap r.linesFor =
      r.spans.flatMap fun entry => paragraph entry ++ [""] := by
    rw [List.flatMap_map]
    refine List.flatMap_congr fun entry hentry => ?_
    have htexts : entry.2.isEmpty = false := by simpa using h.texts_ne_nil entry hentry
    simp only [linesFor, textsOf_of_mem h.names_nodup hentry, htexts]
    rfl
  rw [report, Option.getD_none, hreport]
  refine Text.lines_join_newline fun line hline => ?_
  obtain ⟨entry, hentry, hline⟩ := List.mem_flatMap.mp hline
  rcases List.mem_append.mp hline with hline | hline
  · exact unbroken_of_mem_paragraph (h.name_unbroken entry hentry)
      (h.texts_unbroken entry hentry) line hline
  · obtain rfl := List.mem_singleton.mp hline
    nofun

theorem spans_eq_of_report_eq (h : r.spans.Printable) (h' : r'.spans.Printable)
    (heq : r.report = r'.report) : r.spans = r'.spans := by
  have hlines := congrArg (fun report => Text.lines report.toList) heq
  simp only [lines_report h, lines_report h'] at hlines
  have hrows := (List.map_inj_right fun _ _ => String.toList_inj.mp).mp hlines
  have hparagraphs := congrArg (pieces (· == "")) hrows
  rw [pieces_flatMap_paragraph, pieces_flatMap_paragraph,
    List.append_cancel_right_eq] at hparagraphs
  exact (List.map_inj_right fun _ _ => paragraph_inj.mp).mp hparagraphs

end MatchResult

-- ---------------------------------------------------------------------------
-- Matches
-- ---------------------------------------------------------------------------

namespace Matcher

variable {m : Matcher} {stack : Nat} {start : String} {tokens : List String} {reach : Reach}

theorem genuine_of_search (h : m.search stack start tokens = .ok reach) :
    ∀ span ∈ reach.spans, span.Genuine m.table tokens := by
  obtain ⟨node, -, extent, he, -⟩ := outcome_of_search_eq_ok h
  exact he.genuine (Nat.zero_le _)

theorem printable_of_search (hnames : ∀ name ∈ m.table.names, Text.Unbroken name)
    (htokens : ∀ token ∈ tokens, Text.IsSingle token)
    (h : m.search stack start tokens = .ok reach) : (reach.result tokens).spans.Printable := by
  have hgenuine := genuine_of_search h
  have hlists := SpanTable.lists_ofSpans tokens reach.spans
  -- A name has an entry only because a span of it was recorded.
  have hspan : ∀ entry ∈ SpanTable.ofSpans tokens reach.spans,
      ∃ span ∈ reach.spans, span.name = entry.1 := fun entry hentry =>
    (hlists.mem_names entry.1).mp (List.mem_map_of_mem hentry)
  refine ⟨hlists.names_increasing.imp ne_of_lt, ?_, ?_, ?_⟩
  · intro entry hentry
    obtain ⟨span, hs, hname⟩ := hspan entry hentry
    exact List.ne_nil_of_mem ((hlists.mem_texts entry hentry _).mpr ⟨span, hs, hname, rfl⟩)
  · intro entry hentry
    obtain ⟨span, hs, hname⟩ := hspan entry hentry
    obtain ⟨node, hd, -⟩ := (hgenuine span hs).derives
    exact hname ▸ hnames span.name (SymbolTable.mem_names_iff.mpr ⟨node, hd⟩)
  · intro entry hentry text htext
    obtain ⟨span, hs, -, rfl⟩ := (hlists.mem_texts entry hentry text).mp htext
    exact Span.unbroken_text htokens (hgenuine span hs).le_length

end Matcher

namespace Grammar

variable {g g' : Grammar} {stack stack' : Nat} {text symbol input name : String}
  {path : Option String} {settings : Settings} {r r' : MatchResult}

/-- The rows of words that a symbol covers in the spans that the match of a text records. -/
def covered (g : Grammar) (stack : Nat) (symbol input name : String) : Set (List String) :=
  {row | ∃ reach, g.matcher.search stack symbol (Text.wordsOf input) = .ok reach ∧
    ∃ span ∈ reach.spans, span.name = name ∧
      (Text.wordsOf input).extract span.lo span.hi = row}

theorem run_eq_ok_iff : g.run stack symbol input = .ok r ↔
    ∃ reach, g.matcher.search stack symbol (Text.wordsOf input) = .ok reach ∧
      reach.result (Text.wordsOf input) = r := exceptMap_eq_ok

theorem unbroken_of_ofText (h : ofText text path settings = .ok g) :
    ∀ name ∈ g.matcher.table.names, Text.Unbroken name := by
  obtain ⟨ds, hread, hg⟩ := exceptBind_eq_ok.mp h
  obtain ⟨m, hm, hg⟩ := exceptBind_eq_ok.mp (exceptMapError_eq_ok.mp hg)
  cases hg
  obtain ⟨htable, -⟩ := Matcher.ofTable_eq_ok_iff.mp hm
  have hwritable := Definition.writable_of_readAll (exceptMapError_eq_ok.mp hread)
  rw [htable, SymbolTable.names, tableOf, List.map_map]
  refine List.forall_mem_map.mpr fun d hd => ?_
  exact Text.unbroken_of_forall_not_blank (hwritable d ((sorted_perm ds).mem_iff.mp hd)).no_blank

theorem printable_of_run (hg : ofText text path settings = .ok g)
    (hr : g.run stack symbol input = .ok r) : r.spans.Printable := by
  obtain ⟨reach, hsearch, rfl⟩ := run_eq_ok_iff.mp hr
  exact Matcher.printable_of_search (unbroken_of_ofText hg) Text.isSingle_of_mem_wordsOf hsearch

/-- A result lists the spans that its search recorded, with texts that show what they cover. -/
theorem exists_search_of_run (hr : g.run stack symbol input = .ok r) :
    ∃ reach, g.matcher.search stack symbol (Text.wordsOf input) = .ok reach ∧
      r.spans.Lists (Text.wordsOf input) (spanSet reach.spans) ∧
      ∀ span ∈ reach.spans, Text.wordsOf (span.text (Text.wordsOf input)) =
        "[" :: (Text.wordsOf input).extract span.lo span.hi ++ ["]"] := by
  obtain ⟨reach, hsearch, rfl⟩ := run_eq_ok_iff.mp hr
  refine ⟨reach, hsearch, SpanTable.lists_ofSpans _ reach.spans, fun span hs => ?_⟩
  exact Span.wordsOf_text Text.isSingle_of_mem_wordsOf
    (Matcher.genuine_of_search hsearch span hs).le_length

theorem exists_covered_of_mem (hr : g.run stack symbol input = .ok r) {entry : String × List String}
    (hentry : entry ∈ r.spans) {shown : String} (hshown : shown ∈ entry.2) :
    ∃ row ∈ g.covered stack symbol input entry.1, Text.wordsOf shown = "[" :: row ++ ["]"] := by
  obtain ⟨reach, hsearch, hlists, hwords⟩ := exists_search_of_run hr
  obtain ⟨span, hs, hname, rfl⟩ := (hlists.mem_texts entry hentry shown).mp hshown
  exact ⟨_, ⟨reach, hsearch, span, hs, hname, rfl⟩, hwords span hs⟩

theorem mem_covered_iff (hr : g.run stack symbol input = .ok r) {row : List String} :
    row ∈ g.covered stack symbol input name ↔
      ∃ shown ∈ r.spans.textsOf name, Text.wordsOf shown = "[" :: row ++ ["]"] := by
  obtain ⟨reach, hsearch, hlists, hwords⟩ := exists_search_of_run hr
  constructor
  · rintro ⟨reach', hsearch', span, hs, hname, rfl⟩
    obtain rfl := Except.ok.inj (hsearch.symm.trans hsearch')
    exact ⟨_, hlists.mem_textsOf.mpr ⟨span, hs, hname, rfl⟩, hwords span hs⟩
  · rintro ⟨shown, hshown, hrow⟩
    obtain ⟨span, hs, hname, rfl⟩ := hlists.mem_textsOf.mp hshown
    have heq := (hwords span hs).symm.trans hrow
    exact ⟨reach, hsearch, span, hs, hname, List.append_cancel_right (List.cons.inj heq).2⟩

/-- The words of every text that a match shows are a row of words that its symbol covers, in
brackets. Two matches in grammars that were read from texts show the same texts if they have the
same report, and then every symbol covers the same rows of words in both. -/
theorem report_determines {text text' symbol' input' : String} {path' : Option String}
    {settings' : Settings} (hg : ofText text path settings = .ok g)
    (hg' : ofText text' path' settings' = .ok g') (hr : g.run stack symbol input = .ok r)
    (hr' : g'.run stack' symbol' input' = .ok r') :
    (∀ entry ∈ r.spans, ∀ shown ∈ entry.2, ∃ row ∈ g.covered stack symbol input entry.1,
      Text.wordsOf shown = "[" :: row ++ ["]"]) ∧
    (∀ name row, row ∈ g.covered stack symbol input name ↔
      ∃ shown ∈ r.spans.textsOf name, Text.wordsOf shown = "[" :: row ++ ["]"]) ∧
    (r.report = r'.report → r.spans = r'.spans ∧
      ∀ name, g.covered stack symbol input name = g'.covered stack' symbol' input' name) := by
  refine ⟨fun entry hentry shown hshown => exists_covered_of_mem hr hentry hshown,
    fun name row => mem_covered_iff hr, fun hreport => ?_⟩
  have hspans := MatchResult.spans_eq_of_report_eq (printable_of_run hg hr)
    (printable_of_run hg' hr') hreport
  refine ⟨hspans, fun name => Set.ext fun row => ?_⟩
  rw [mem_covered_iff hr, mem_covered_iff hr', hspans]

/-- A match that takes in its whole input and one that fails after a group have the same report. -/
theorem report_determines_group : ∃ g g' r r',
    ofText "<a> ::= <b> y\n<b> ::= x" = .ok g ∧
    ofText "<b> ::= x\n<c> ::= \x7b<b>\x7d z" = .ok g' ∧
    g.run 900 "a" "x y" = .ok r ∧ g'.run 900 "c" "x" = .ok r' ∧
    r.matched = true ∧ r'.matched = false ∧
    r.report = "Matches for <b>:\n>>> [ x ]\n\n" ∧ r.report = r'.report ∧ r.spans = r'.spans ∧
    ["x"] ∈ g.covered 900 "a" "x y" "b" ∧
    g.covered 900 "a" "x y" "b" = g'.covered 900 "c" "x" "b" := by
  let a : Definition := ⟨"a", .sequence [.run [.reference "b", .literal "y"]], 1⟩
  let b (line : Nat) : Definition := ⟨"b", .sequence [.run [.literal "x"]], line⟩
  let c : Definition :=
    ⟨"c", .sequence [.group [.reference "b"] .zeroOrMore, .run [.literal "z"]], 2⟩
  have hread : Definition.readAll "<a> ::= <b> y\n<b> ::= x" = .ok [a, b 2] := by
    have hlines : Line.ofText "<a> ::= <b> y\n<b> ::= x" =
        [⟨1, [⟨"<a>", false⟩, ⟨"::=", false⟩, ⟨"<b>", false⟩, ⟨"y", false⟩]⟩,
          ⟨2, [⟨"<b>", false⟩, ⟨"::=", false⟩, ⟨"x", false⟩]⟩] := by decide
    rw [Definition.readAll, Reading.ofText, hlines]
    cbv
  have hread' : Definition.readAll "<b> ::= x\n<c> ::= \x7b<b>\x7d z" = .ok [b 1, c] := by
    have hlines : Line.ofText "<b> ::= x\n<c> ::= \x7b<b>\x7d z" =
        [⟨1, [⟨"<b>", false⟩, ⟨"::=", false⟩, ⟨"x", false⟩]⟩,
          ⟨2, [⟨"<c>", false⟩, ⟨"::=", false⟩, ⟨"\x7b", false⟩, ⟨"<b>", false⟩, ⟨"\x7d", false⟩,
            ⟨"z", false⟩]⟩] := by decide
    rw [Definition.readAll, Reading.ofText, hlines]
    cbv
  let g : Grammar := ⟨none, [a, b 2], ⟨tableOf [a, b 2], 50, by decide⟩⟩
  let g' : Grammar := ⟨none, [b 1, c], ⟨tableOf [b 1, c], 50, by decide⟩⟩
  have hg : ofText "<a> ::= <b> y\n<b> ::= x" = .ok g := by
    have hsorted : sorted [a, b 2] = [a, b 2] := by cbv
    have htable : Matcher.ofTable (tableOf [a, b 2]) = .ok g.matcher := dif_pos (by decide)
    rw [ofText_of_readAll hread, hsorted, htable]
    rfl
  have hg' : ofText "<b> ::= x\n<c> ::= \x7b<b>\x7d z" = .ok g' := by
    have hsorted : sorted [b 1, c] = [b 1, c] := by cbv
    have htable : Matcher.ofTable (tableOf [b 1, c]) = .ok g'.matcher := dif_pos (by decide)
    rw [ofText_of_readAll hread', hsorted, htable]
    rfl
  have hr : g.run 900 "a" "x y" = .ok ⟨true, 2, ["x", "y"], [("b", ["[ x ]"])]⟩ := by decide +kernel
  have hr' : g'.run 900 "c" "x" = .ok ⟨false, -1, ["x"], [("b", ["[ x ]"])]⟩ := by decide +kernel
  obtain ⟨-, hcovered, hsame⟩ := report_determines hg hg' hr hr'
  obtain ⟨hspans, hrows⟩ := hsame rfl
  refine ⟨g, g', _, _, hg, hg', hr, hr', rfl, rfl, by decide, rfl, hspans, ?_, hrows "b"⟩
  exact (hcovered "b" ["x"]).mpr ⟨"[ x ]", by decide, by decide⟩

end Grammar

end BackusNaur

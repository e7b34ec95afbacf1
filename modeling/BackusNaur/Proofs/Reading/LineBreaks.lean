import BackusNaur.Proofs.Reading.Bars

/-!
# Breaking lines

A right-hand side can be written on several lines: a blank outside quotes is as good as a line feed,
but for bars. A bar is set apart from an operator next to it only if it has a neighbour on its other
side. So a bar that a line feed puts at the end of a line, or at the start of one, can become part
of the word beside it.

`Definition.readAll_break_iff`: a broken line is read as the same definitions if and only if no bar
becomes part of a word.
-/

namespace BackusNaur

-- ---------------------------------------------------------------------------
-- Breaking a line
-- ---------------------------------------------------------------------------

namespace Line

variable {u v : List Char} {w : Char}

theorem row?_of_ne_nil (h : Text.trim u ≠ []) : row? u = some (Token.ofLine (Text.trim u)) := by
  rw [row?, if_neg (by simpa using h)]

theorem row?_of_eq_nil (h : Text.trim u = []) : row? u = none := by
  rw [row?, if_pos (by simpa using h)]

theorem ofLine_trim_append_cons (hw : Text.isBlank w = true) (hquotes : u.count '"' % 2 = 0)
    (hu : Text.trim u ≠ []) (hv : Text.trim v ≠ []) : Text.trim (u ++ w :: v) ≠ [] ∧
      Token.ofLine (Text.trim (u ++ w :: v)) =
        Token.ofLine (Text.trim u ++ [' ']) ++ Token.ofLine (' ' :: Text.trim v) := by
  obtain ⟨sep, hne, hsep, htrim⟩ := Text.exists_trim_append_cons hw u v
  rw [htrim hu hv]
  exact ⟨by simp [hu], Token.ofLine_append_blanks (Text.even_count_trim hquotes) hne hsep _⟩

end Line

namespace Definition

/-- Where no bar is lost the two lines have the tokens of the whole line, and they are cut into the
same blocks. -/
theorem readAll_break {before after : List Char} {w : Char} {ds : List Definition}
    (hread : readAll (String.ofList (before ++ w :: after)) = .ok ds)
    (hblank : Text.isBlank w = true) (hquotes : (Text.lastLine before).count '"' % 2 = 0)
    (hdefine : Text.isLineBreak w = false →
      (Token.StartDefinition
          (Token.ofLine (Text.trim (Text.lastLine before ++ w :: Text.firstLine after))) →
        Token.StartDefinition (Token.ofLine (Text.trim (Text.lastLine before)))) ∧
      ¬ Token.StartDefinition (Token.ofLine (Text.trim (Text.firstLine after))))
    (hbars : Text.isLineBreak w = false →
      Text.trim (Text.lastLine before) ≠ [] → Text.trim (Text.firstLine after) ≠ [] →
        ¬ Token.EndsInBar (Text.trim (Text.lastLine before)) ∧
          ¬ Token.BeginsWithBar (Text.trim (Text.firstLine after))) :
    ∃ es, readAll (String.ofList (before ++ '\n' :: after)) = .ok es ∧
      es.map content = ds.map content := by
  refine Reading.result_of_alike ?_ hread
  obtain ⟨front, back, hsame, hbreak⟩ := Line.exists_rows_break before after
  have hbroken : (Line.ofText (String.ofList (before ++ '\n' :: after))).map Line.tokens = _ :=
    (Line.map_tokens_ofText _).trans (by rw [String.toList_ofList, hbreak '\n' (by decide)])
  have hwhole := Line.map_tokens_ofText (String.ofList (before ++ w :: after))
  rw [String.toList_ofList] at hwhole
  cases hw : Text.isLineBreak w with
  | true =>
    rw [hbreak w hw] at hwhole
    exact .of_tokens_eq (hwhole.trans hbroken.symm)
  | false =>
    rw [hsame w hw] at hwhole
    by_cases hu : Text.trim (Text.lastLine before) = []
    · rw [Line.row?, Text.trim_append_cons_of_left hblank hu, ← Line.row?] at hwhole
      rw [Line.row?_of_eq_nil hu, Option.toList_none, List.append_nil] at hbroken
      exact .of_tokens_eq (hwhole.trans hbroken.symm)
    by_cases hv : Text.trim (Text.firstLine after) = []
    · rw [Line.row?, Text.trim_append_cons_of_right hblank hv, ← Line.row?] at hwhole
      rw [Line.row?_of_eq_nil hv, Option.toList_none, List.append_nil] at hbroken
      exact .of_tokens_eq (hwhole.trans hbroken.symm)
    obtain ⟨hdefine, hnot⟩ := hdefine hw
    obtain ⟨hend, hbegin⟩ := hbars hw hu hv
    obtain ⟨hne, htokens⟩ := Line.ofLine_trim_append_cons hblank hquotes hu hv
    rw [Token.ofLine_concat_blank (Text.even_count_trim hquotes) hend,
      Token.ofLine_cons_blank hbegin] at htokens
    rw [htokens] at hdefine
    rw [Line.row?_of_ne_nil hne, htokens, List.append_assoc] at hwhole
    rw [Line.row?_of_ne_nil hu, Line.row?_of_ne_nil hv, List.append_assoc, List.append_assoc]
      at hbroken
    exact .of_split hwhole hbroken hdefine hnot

/-- Where a bar is lost the whole line has more bars than the two lines, so it has more
alternatives. -/
theorem map_content_ne_of_bar {before after : List Char} {w : Char} {ds es : List Definition}
    (hread : readAll (String.ofList (before ++ w :: after)) = .ok ds)
    (hbroken : readAll (String.ofList (before ++ '\n' :: after)) = .ok es)
    (hblank : Text.isBlank w = true) (hquotes : (Text.lastLine before).count '"' % 2 = 0)
    (hw : Text.isLineBreak w = false) (hu : Text.trim (Text.lastLine before) ≠ [])
    (hv : Text.trim (Text.firstLine after) ≠ [])
    (hbar : Token.EndsInBar (Text.trim (Text.lastLine before)) ∨
      Token.BeginsWithBar (Text.trim (Text.firstLine after))) :
    es.map content ≠ ds.map content := by
  intro hcontent
  obtain ⟨front, back, hsame, hbreak⟩ := Line.exists_rows_break before after
  obtain ⟨hne, htokens⟩ := Line.ofLine_trim_append_cons hblank hquotes hu hv
  have hloses := Token.losesBar_ofLine (Text.even_count_trim hquotes) hbar
  have hwhole := hsame w hw
  have hparts := hbreak '\n' (by decide)
  rw [Line.row?_of_ne_nil hne, htokens] at hwhole
  rw [Line.row?_of_ne_nil hu, Line.row?_of_ne_nil hv] at hparts
  rcases hloses with hlt | hbars
  · have hcount := countP_isBar_congr hread hbroken hcontent
    rw [String.toList_ofList, String.toList_ofList, hwhole, hparts] at hcount
    simp only [Option.toList_some, List.flatten_append, List.flatten_singleton,
      List.countP_append] at hcount hlt
    omega
  · refine not_adjacent_of_mem_rows hread _ ?_ hbars
    rw [String.toList_ofList, hwhole]
    simp

/-- A line can be broken at a blank outside quotes, behind the `::=` of a definition, where the
second part does not start a definition that was none before: the same symbols are defined by the
same right-hand sides if and only if no bar comes to stand first or last on a line beside a
character that holds it. -/
theorem readAll_break_iff {before after : List Char} {w : Char} {ds : List Definition}
    (hread : readAll (String.ofList (before ++ w :: after)) = .ok ds)
    (hblank : Text.isBlank w = true) (hquotes : (Text.lastLine before).count '"' % 2 = 0)
    (hdefine : Text.isLineBreak w = false →
      (Token.StartDefinition
          (Token.ofLine (Text.trim (Text.lastLine before ++ w :: Text.firstLine after))) →
        Token.StartDefinition (Token.ofLine (Text.trim (Text.lastLine before)))) ∧
      ¬ Token.StartDefinition (Token.ofLine (Text.trim (Text.firstLine after)))) :
    (∃ es, readAll (String.ofList (before ++ '\n' :: after)) = .ok es ∧
      es.map content = ds.map content) ↔
    (Text.isLineBreak w = false →
      Text.trim (Text.lastLine before) ≠ [] → Text.trim (Text.firstLine after) ≠ [] →
        ¬ Token.EndsInBar (Text.trim (Text.lastLine before)) ∧
          ¬ Token.BeginsWithBar (Text.trim (Text.firstLine after))) := by
  refine ⟨?_, readAll_break hread hblank hquotes hdefine⟩
  rintro ⟨es, hbroken, hcontent⟩ hw hu hv
  rw [← not_or]
  exact fun hbar => map_content_ne_of_bar hread hbroken hblank hquotes hw hu hv hbar hcontent

/-- A bar can begin a line if white space is behind it. -/
theorem readAll_break_before_bar :
    readAll (String.ofList ("<a> ::= \"x y\"".toList ++ ' ' :: "| z".toList)) =
      .ok [⟨"a",
        .alternation (.sequence [.run [.literal "x y"]]) (.sequence [.run [.literal "z"]]), 1⟩] ∧
    ∃ es, readAll (String.ofList ("<a> ::= \"x y\"".toList ++ '\n' :: "| z".toList)) = .ok es ∧
      es.map content = [("a",
        .alternation (.sequence [.run [.literal "x y"]]) (.sequence [.run [.literal "z"]]))] := by
  have hline : Line.ofText (String.ofList ("<a> ::= \"x y\"".toList ++ ' ' :: "| z".toList)) =
      [⟨1, [⟨"<a>", false⟩, ⟨"::=", false⟩, ⟨"x y", true⟩, ⟨"|", false⟩, ⟨"z", false⟩]⟩] := by
    decide
  have hread : readAll (String.ofList ("<a> ::= \"x y\"".toList ++ ' ' :: "| z".toList)) =
      .ok [⟨"a", .alternation (.sequence [.run [.literal "x y"]])
        (.sequence [.run [.literal "z"]]), 1⟩] := by
    rw [readAll, Reading.ofText, hline]
    cbv
  have hu : Token.ofLine (Text.trim (Text.lastLine "<a> ::= \"x y\"".toList)) =
      [⟨"<a>", false⟩, ⟨"::=", false⟩, ⟨"x y", true⟩] := by decide
  have hv : Token.ofLine (Text.trim (Text.firstLine "| z".toList)) =
      [⟨"|", false⟩, ⟨"z", false⟩] := by decide
  refine ⟨hread, (readAll_break_iff hread (by decide) (by decide) fun _ =>
    ⟨fun _ => ?_, ?_⟩).mpr fun _ _ _ => ⟨?_, ?_⟩⟩
  · rw [hu]
    exact ⟨_, _, rfl⟩
  · rw [hv]
    simp [Token.StartDefinition, Token.define]
  · rintro ⟨front, c, h, -⟩
    have hlast : (Text.trim (Text.lastLine "<a> ::= \"x y\"".toList)).getLast? = some '"' := by
      decide
    rw [h] at hlast
    simp at hlast
  · rintro ⟨c, rest, h, hc⟩
    have hline : Text.trim (Text.firstLine "| z".toList) = ['|', ' ', 'z'] := by decide
    rw [hline] at h
    cases h
    exact absurd hc (by decide)

/-- A bar that begins a line next to an operator is no bar. -/
theorem not_readAll_break : ¬ ∀ (before after : List Char) (w : Char) (ds : List Definition),
    readAll (String.ofList (before ++ w :: after)) = .ok ds → Text.isBlank w = true →
    (Text.lastLine before).count '"' % 2 = 0 →
    (Text.isLineBreak w = false →
      (Token.StartDefinition
          (Token.ofLine (Text.trim (Text.lastLine before ++ w :: Text.firstLine after))) →
        Token.StartDefinition (Token.ofLine (Text.trim (Text.lastLine before)))) ∧
      ¬ Token.StartDefinition (Token.ofLine (Text.trim (Text.firstLine after)))) →
    ∃ es, readAll (String.ofList (before ++ '\n' :: after)) = .ok es ∧
      es.map content = ds.map content := by
  intro h
  have hline : Line.ofText (String.ofList ("<sign> ::= +".toList ++ ' ' :: "|-".toList)) =
      [⟨1, [⟨"<sign>", false⟩, ⟨"::=", false⟩, ⟨"+", false⟩, ⟨"|", false⟩, ⟨"-", false⟩]⟩] := by
    decide
  have hread : readAll (String.ofList ("<sign> ::= +".toList ++ ' ' :: "|-".toList)) =
      .ok [⟨"sign",
        .alternation (.sequence [.run [.literal "+"]]) (.sequence [.run [.literal "-"]]), 1⟩] := by
    rw [readAll, Reading.ofText, hline]
    cbv
  have hlines : Line.ofText (String.ofList ("<sign> ::= +".toList ++ '\n' :: "|-".toList)) =
      [⟨1, [⟨"<sign>", false⟩, ⟨"::=", false⟩, ⟨"+", false⟩]⟩, ⟨2, [⟨"|-", false⟩]⟩] := by decide
  have hbroken : readAll (String.ofList ("<sign> ::= +".toList ++ '\n' :: "|-".toList)) =
      .ok [⟨"sign", .sequence [.run [.literal "+", .literal "|-"]], 1⟩] := by
    rw [readAll, Reading.ofText, hlines]
    cbv
  have hu : Token.ofLine (Text.trim (Text.lastLine "<sign> ::= +".toList)) =
      [⟨"<sign>", false⟩, ⟨"::=", false⟩, ⟨"+", false⟩] := by decide
  have hv : Token.ofLine (Text.trim (Text.firstLine "|-".toList)) = [⟨"|-", false⟩] := by decide
  obtain ⟨es, hes, hcontent⟩ := h _ _ ' ' _ hread (by decide) (by decide) fun _ => by
    rw [hu, hv]
    exact ⟨fun _ => ⟨_, _, rfl⟩, by simp [Token.StartDefinition]⟩
  obtain rfl := Except.ok.inj (hbroken.symm.trans hes)
  exact absurd hcontent (by decide)

end Definition

end BackusNaur

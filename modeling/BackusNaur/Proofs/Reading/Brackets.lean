import BackusNaur.Proofs.Reading.Joining
import BackusNaur.Proofs.Reading.TokenShape

/-!
# Square brackets

A group that is left out or matched once can be written in square brackets, which are another
spelling of braces with the mark `?`. Quotes keep brackets as they are, to the end of their line at
most. `Text.spellOut` writes the braces in the brackets' places.

Spelling a bracket out can bring white space to the start or the end of a line, where it is trimmed,
and white space next to a bar. Neither changes a token, for there is always a brace or the mark in
between: `Token.ofLine_spelling` for one bracket, `Line.ofNumbered?_append_spellOut` for a line.

`Definition.readAll_spellOut`: a text and the text with its brackets spelled out have the same lines
of tokens, so they are read as the same definitions or have the same fault.
-/

namespace BackusNaur

-- ---------------------------------------------------------------------------
-- Spelling brackets out
-- ---------------------------------------------------------------------------

namespace Text

/-- The braces for a square bracket; other characters stay. -/
def spelling : Char → List Char
  | '[' => ['{']
  | ']' => [' ', '}', ' ', '?', ' ']
  | c => [c]

def insideAfter (inside : Bool) (c : Char) : Bool :=
  if isLineBreak c then false else if c = '"' then !inside else inside

/-- A text with the brackets outside quotes spelled out, where `inside` tells whether it begins
inside quotes. -/
def spellOut (inside : Bool) : List Char → List Char
  | [] => []
  | c :: rest => (if inside then [c] else spelling c) ++ spellOut (insideAfter inside c) rest

theorem spelling_eq_or (c : Char) : spelling c = [c] ∨ c = '[' ∨ c = ']' := by
  unfold spelling
  split
  · exact .inr (.inl rfl)
  · exact .inr (.inr rfl)
  · exact .inl rfl

end Text

namespace Token

open Text (spelling)

variable {a b p q : List Char} {c : Char}

theorem ofBare_open (p q : List Char) : ofBare (p ++ '[' :: q) = ofBare (p ++ '{' :: q) := by
  simp only [ofBare, List.flatMap_append, List.flatMap_cons, spaceBrace]

theorem ofBare_close (p q : List Char) : ofBare (p ++ ']' :: q) =
    ofBare (p ++ [' ']) ++ ([⟨"\x7d", false⟩, ⟨"?", false⟩] ++ ofBare (' ' :: q)) := by
  have hspace : Text.isBlank ' ' = true := rfl
  have hmark : Text.words (spaceBars none (" \x7d ?".toList ++ ' ' :: q.flatMap spaceBrace)) =
      ["\x7d".toList, "?".toList] ++ Text.words (spaceBars none (' ' :: q.flatMap spaceBrace)) :=
    words_spaceBars_append hspace " \x7d ?".toList _
  have hspaced : (p ++ ']' :: q).flatMap spaceBrace =
      p.flatMap spaceBrace ++ ' ' :: ("\x7d ?".toList ++ ' ' :: q.flatMap spaceBrace) := by
    rw [List.flatMap_append, List.flatMap_cons]
    rfl
  rw [ofBare, hspaced, words_spaceBars_append hspace, ← List.cons_append, List.map_append]
  show _ ++ List.map _ (Text.words (spaceBars none (" \x7d ?".toList ++ _))) = _
  rw [hmark, ofBare, List.flatMap_append]
  rfl

theorem ofBare_close_spelled (p q : List Char) : ofBare (p ++ spelling ']' ++ q) =
    ofBare (p ++ [' ']) ++ ([⟨"\x7d", false⟩, ⟨"?", false⟩] ++ ofBare (' ' :: q)) := by
  have hspace : ∀ c ∈ [' '], Text.isBlank c = true := by simp [Text.isBlank]
  have hmark : ofBare (" \x7d ?".toList ++ [' '] ++ q) =
      [⟨"\x7d", false⟩, ⟨"?", false⟩] ++ ofBare (' ' :: q) :=
    ofBare_append_blanks (by simp) hspace " \x7d ?".toList q
  have hcut : p ++ spelling ']' ++ q = p ++ [' '] ++ ("\x7d ?".toList ++ [' '] ++ q) := by
    simp [spelling]
  rw [hcut, ofBare_append_blanks (by simp) hspace, ← hmark]
  rfl

theorem ofBare_spelling (c : Char) (p q : List Char) :
    ofBare (p ++ spelling c ++ q) = ofBare (p ++ c :: q) := by
  rcases Text.spelling_eq_or c with hc | rfl | rfl
  · rw [hc, List.append_assoc]
    rfl
  · rw [ofBare_open, List.append_assoc]
    rfl
  · rw [ofBare_close, ofBare_close_spelled]

theorem ofLine_spelling (he : a.count '"' % 2 = 0) (c : Char) (b : List Char) :
    ofLine (a ++ spelling c ++ b) = ofLine (a ++ c :: b) := by
  by_cases hc : '"' ∈ c :: spelling c
  · have hsame : spelling c = [c] := by
      rcases Text.spelling_eq_or c with hc | rfl | rfl
      · exact hc
      · exact absurd hc (by decide)
      · exact absurd hc (by decide)
    rw [hsame, List.append_assoc]
    rfl
  · obtain ⟨hone, hspelled⟩ := not_or.mp (mt List.mem_cons.mpr hc)
    obtain ⟨ts, p, -, hp, ha⟩ := exists_ofLine_append he
    obtain ⟨q, us, -, hb⟩ := exists_append_ofLine b
    calc ofLine (a ++ spelling c ++ b)
        = ts ++ (ofBare (p ++ spelling c ++ q) ++ us) := by
          rw [List.append_assoc, ha, ← List.append_assoc p, hb _ (by simp [hp, hspelled])]
      _ = ts ++ (ofBare (p ++ c :: q) ++ us) := by rw [ofBare_spelling]
      _ = ofLine (a ++ c :: b) := by
          rw [ha, List.append_cons p c q, List.append_cons p c b, hb _ (by simp [hp, hone])]

end Token

-- ---------------------------------------------------------------------------
-- Ends of lines
-- ---------------------------------------------------------------------------

namespace Text

variable {a b : List Char}

theorem trimStart_append_cons (hc : isBlank c = false) (a b : List Char) :
    trimStart (a ++ c :: b) = trimStart a ++ c :: b := by
  rw [trimStart, List.dropWhile_append]
  split
  · rename_i h
    rw [trimStart, List.isEmpty_iff.mp h, List.dropWhile_cons_of_neg (by simp [hc])]
    rfl
  · rfl

theorem trimEnd_append_cons (hc : isBlank c = false) (a b : List Char) :
    trimEnd (a ++ c :: b) = a ++ c :: trimEnd b := by
  have h := trimStart_append_cons hc b.reverse a.reverse
  have hreverse : (a ++ c :: b).reverse = b.reverse ++ c :: a.reverse := by simp
  rw [trimEnd, hreverse, ← trimStart, h, trimEnd]
  simp [trimStart]

theorem trim_append_cons (hc : isBlank c = false) (a b : List Char) :
    trim (a ++ c :: b) = trimStart a ++ c :: trimEnd b := by
  rw [trim, trimStart_append_cons hc, trimEnd_append_cons hc]

theorem trimStart_concat_blank (hc : isBlank c = true) (a : List Char) :
    (trimStart (a ++ [c]) = [] ∧ trimStart a = []) ∨ trimStart (a ++ [c]) = trimStart a ++ [c] := by
  rw [trimStart, List.dropWhile_append]
  split
  · rename_i h
    exact .inl ⟨List.dropWhile_cons_of_pos hc, List.isEmpty_iff.mp h⟩
  · exact .inr rfl

theorem trimEnd_cons_blank (hc : isBlank c = true) (b : List Char) :
    (trimEnd (c :: b) = [] ∧ trimEnd b = []) ∨ trimEnd (c :: b) = c :: trimEnd b := by
  rw [trimEnd, trimEnd, List.reverse_cons]
  rcases trimStart_concat_blank hc b.reverse with ⟨h, hb⟩ | h
  · exact .inl ⟨congrArg List.reverse h, congrArg List.reverse hb⟩
  · refine .inr ((congrArg List.reverse h).trans ?_)
    rw [List.reverse_append]
    rfl

theorem count_trimStart {q : Char} (hq : isBlank q = false) (text : List Char) :
    (trimStart text).count q = text.count q := by
  induction text with
  | nil => rfl
  | cons c text ih =>
    cases hc : isBlank c with
    | true =>
      have hne : c ≠ q := by
        rintro rfl
        rw [hq] at hc
        cases hc
      rw [trimStart, List.dropWhile_cons_of_pos hc, ← trimStart, ih, List.count_cons_of_ne hne]
    | false => rw [trimStart, List.dropWhile_cons_of_neg (by simp [hc])]

end Text

namespace Line

open Text (spelling trimStart trimEnd)

variable {a : List Char}

theorem ofNumbered?_append_cons {c : Char} (hc : Text.isBlank c = false) (a b : List Char)
    (n : Nat) : ofNumbered? (a ++ c :: b, n) =
      some ⟨n, Token.ofLine (trimStart a ++ c :: trimEnd b)⟩ := by
  rw [ofNumbered?, Text.trim_append_cons hc, if_neg (by simp)]

theorem ofLine_trimStart_brace (a y : List Char) :
    Token.ofLine (trimStart (a ++ [' ']) ++ '\x7d' :: y) =
      Token.ofLine (trimStart a ++ ' ' :: '\x7d' :: y) := by
  have hspace : Text.isBlank ' ' = true := rfl
  rcases Text.trimStart_concat_blank hspace a with ⟨h, ha⟩ | h
  · have hbar : ¬ Token.BeginsWithBar ('\x7d' :: y) := by simp [Token.BeginsWithBar]
    rw [h, ha]
    exact (Token.ofLine_cons_blank hbar).symm
  · rw [h, List.append_assoc]
    rfl

theorem ofLine_trimEnd_mark {x : List Char} (he : x.count '"' % 2 = 0) (b : List Char) :
    Token.ofLine (x ++ '?' :: trimEnd (' ' :: b)) =
      Token.ofLine (x ++ '?' :: ' ' :: trimEnd b) := by
  have hspace : Text.isBlank ' ' = true := rfl
  rcases Text.trimEnd_cons_blank hspace b with ⟨h, hb⟩ | h
  · have hbar : ¬ Token.EndsInBar (x ++ ['?']) := by
      rintro ⟨front, c, hline, -⟩
      have hlast := congrArg List.getLast? hline
      simp at hlast
    have heven : (x ++ ['?']).count '"' % 2 = 0 := by simpa using he
    have hconcat := Token.ofLine_concat_blank heven hbar
    rw [h, hb, ← hconcat, List.append_assoc]
    rfl
  · rw [h]

theorem ofLine_trim_close (he : (trimStart a).count '"' % 2 = 0) (b : List Char) :
    Token.ofLine (trimStart (a ++ [' ']) ++ '\x7d' :: ' ' :: '?' :: trimEnd (' ' :: b)) =
      Token.ofLine (trimStart a ++ ']' :: trimEnd b) := by
  have heven : (trimStart a ++ [' ', '\x7d', ' ']).count '"' % 2 = 0 := by simpa using he
  calc Token.ofLine (trimStart (a ++ [' ']) ++ '\x7d' :: ' ' :: '?' :: trimEnd (' ' :: b))
      = Token.ofLine (trimStart a ++ ' ' :: '\x7d' :: ' ' :: '?' :: trimEnd (' ' :: b)) :=
        ofLine_trimStart_brace a _
    _ = Token.ofLine (trimStart a ++ [' ', '\x7d', ' '] ++ '?' :: trimEnd (' ' :: b)) := by simp
    _ = Token.ofLine (trimStart a ++ [' ', '\x7d', ' '] ++ '?' :: ' ' :: trimEnd b) :=
        ofLine_trimEnd_mark heven b
    _ = Token.ofLine (trimStart a ++ spelling ']' ++ trimEnd b) := by simp [spelling]
    _ = Token.ofLine (trimStart a ++ ']' :: trimEnd b) := Token.ofLine_spelling he ']' _

theorem ofNumbered?_spelling (he : a.count '"' % 2 = 0) (c : Char) (b : List Char) (n : Nat) :
    ofNumbered? (a ++ spelling c ++ b, n) = ofNumbered? (a ++ c :: b, n) := by
  have heven : (trimStart a).count '"' % 2 = 0 := by rwa [Text.count_trimStart (by decide)]
  rcases Text.spelling_eq_or c with hc | rfl | rfl
  · rw [hc, List.append_assoc]
    rfl
  · have hline : a ++ spelling '[' ++ b = a ++ '\x7b' :: b := by simp [spelling]
    have htokens := Token.ofLine_spelling heven '[' (trimEnd b)
    rw [List.append_assoc] at htokens
    rw [hline, ofNumbered?_append_cons (by decide), ofNumbered?_append_cons (by decide), ← htokens]
    rfl
  · have hline : a ++ spelling ']' ++ b = (a ++ [' ']) ++ '\x7d' :: ([' '] ++ '?' :: ' ' :: b) := by
      simp [spelling]
    rw [hline, ofNumbered?_append_cons (by decide), Text.trimEnd_append_cons (by decide),
      ofNumbered?_append_cons (by decide), List.singleton_append, ofLine_trim_close heven]

theorem insideAfter_count {c : Char} (hc : Text.isLineBreak c = false) (a : List Char) :
    Text.insideAfter (a.count '"' % 2 == 1) c = ((a ++ [c]).count '"' % 2 == 1) := by
  rw [Text.insideAfter, if_neg (by simp [hc]), List.count_append, List.count_singleton]
  split
  · rename_i hquote
    rw [if_pos (by simp [hquote])]
    rcases Nat.mod_two_eq_zero_or_one (a.count '"') with h | h <;> simp [Nat.add_mod, h]
  · rename_i hquote
    rw [if_neg (by simpa using hquote), Nat.add_zero]

theorem ofNumbered?_append_spellOut {line : List Char}
    (hline : ∀ c ∈ line, Text.isLineBreak c = false) (a : List Char) (n : Nat) :
    ofNumbered? (a ++ Text.spellOut (a.count '"' % 2 == 1) line, n) =
      ofNumbered? (a ++ line, n) := by
  induction line generalizing a with
  | nil => rfl
  | cons c line ih =>
    obtain ⟨hc, hline⟩ := List.forall_mem_cons.mp hline
    rw [List.append_cons a c line, ← ih hline, Text.spellOut, insideAfter_count hc,
      ← List.append_assoc]
    split
    · rfl
    · rename_i hquoted
      rw [ofNumbered?_spelling (by simpa using hquoted), List.append_cons]

end Line

-- ---------------------------------------------------------------------------
-- Lines of a text
-- ---------------------------------------------------------------------------

namespace Text

variable {text first : List Char} {others : List (List Char)} {c : Char}

theorem lines_append_of_not_break {front : List Char} (hfront : ∀ c ∈ front, isLineBreak c = false)
    (h : lines text = first :: others) : lines (front ++ text) = (front ++ first) :: others := by
  induction front with
  | nil => exact h
  | cons c front ih =>
    obtain ⟨hc, hfront⟩ := List.forall_mem_cons.mp hfront
    rw [List.cons_append, lines_cons_of_not_break hc, ih hfront]
    rfl

theorem spellOut_cons_of_break (h : isLineBreak c = true) (inside : Bool) (rest : List Char) :
    spellOut inside (c :: rest) = c :: spellOut false rest := by
  have hc : spelling c = [c] := by
    rcases spelling_eq_or c with hc | rfl | rfl
    · exact hc
    · cases h
    · cases h
  rw [spellOut, insideAfter, if_pos h, hc, ite_self]
  rfl

theorem exists_spellOut_cons (h : isLineBreak c = false) (inside : Bool) :
    ∃ front after, front ≠ [] ∧ (∀ d ∈ front, isLineBreak d = false) ∧
      ∀ rest, spellOut inside (c :: rest) = front ++ spellOut after rest := by
  refine ⟨if inside then [c] else spelling c, insideAfter inside c, ?_, ?_, fun rest => rfl⟩
  · split
    · exact List.cons_ne_nil _ _
    · rcases spelling_eq_or c with hc | rfl | rfl
      · exact hc ▸ List.cons_ne_nil _ _
      · decide
      · decide
  · split
    · exact List.forall_mem_singleton.mpr h
    · rcases spelling_eq_or c with hc | rfl | rfl
      · rwa [hc, List.forall_mem_singleton]
      · simp [spelling, isLineBreak]
      · simp [spelling, isLineBreak]

theorem head?_spellOut (h : text.head? ≠ some '\n') (inside : Bool) :
    (spellOut inside text).head? ≠ some '\n' := by
  cases text with
  | nil => simp [spellOut]
  | cons c rest =>
    cases hc : isLineBreak c with
    | true =>
      rw [spellOut_cons_of_break hc]
      exact h
    | false =>
      obtain ⟨front, after, hne, hfront, hspelled⟩ := exists_spellOut_cons hc inside
      obtain ⟨d, front, rfl⟩ := List.exists_cons_of_ne_nil hne
      have hd := hfront d (.head _)
      rw [hspelled]
      rintro ⟨⟩
      cases hd

def spellLines (inside : Bool) : List (List Char) → List (List Char)
  | [] => []
  | first :: others => spellOut inside first :: others.map (spellOut false)

theorem spellLines_false (rows : List (List Char)) :
    spellLines false rows = rows.map (spellOut false) := by
  cases rows <;> rfl

theorem lines_spellOut (inside : Bool) (text : List Char) :
    lines (spellOut inside text) = spellLines inside (lines text) := by
  induction text using lines.induct generalizing inside with
  | case1 => rfl
  | case2 rest ih =>
    rw [spellOut_cons_of_break (by decide), spellOut_cons_of_break (by decide), lines_pair, ih,
      lines_pair, spellLines_false]
    rfl
  | case3 c rest hp hb ih =>
    have hpair : c = '\r' → rest.head? ≠ some '\n' := by
      intro hc hhead
      obtain ⟨rest, rfl⟩ := List.head?_eq_some_iff.mp hhead
      exact hp rest hc rfl
    rw [spellOut_cons_of_break hb, lines_cons_of_break hb fun hc => head?_spellOut (hpair hc) false,
      ih, lines_cons_of_break hb hpair, spellLines_false]
    rfl
  | case4 c rest hp hb hnone =>
    obtain rfl := lines_eq_nil_iff.mp hnone
    have hb : isLineBreak c = false := by simpa using hb
    obtain ⟨front, after, hne, hfront, hspelled⟩ := exists_spellOut_cons hb inside
    have hline : lines [c] = [[c]] := lines_of_not_break (by simp) (by simpa using hb)
    have hfirst : spellOut inside [c] = front := (hspelled []).trans (List.append_nil _)
    rw [hline, hfirst, lines_of_not_break hne hfront, ← hfirst]
    rfl
  | case5 c rest hp hb line others hl ih =>
    have hb : isLineBreak c = false := by simpa using hb
    obtain ⟨front, after, -, hfront, hspelled⟩ := exists_spellOut_cons hb inside
    have hrest : lines (spellOut after rest) =
        spellOut after line :: others.map (spellOut false) := by
      rw [ih, hl]
      rfl
    rw [hspelled, lines_append_of_not_break hfront hrest, lines_cons_of_not_break hb, hl,
      spellLines, hspelled]

end Text

/-- The lines that are not blank have the same numbers and the same tokens with every bracket
outside quotes spelled out, so a text is read as the same definitions or has the same fault at the
same line. -/
theorem Definition.readAll_spellOut (text : String) :
    Line.ofText (String.ofList (Text.spellOut false text.toList)) = Line.ofText text ∧
      readAll (String.ofList (Text.spellOut false text.toList)) = readAll text := by
  have hlines : Line.ofText (String.ofList (Text.spellOut false text.toList)) =
      Line.ofText text := by
    rw [Line.ofText_eq_filterMap, Line.ofText_eq_filterMap, String.toList_ofList,
      Text.lines_spellOut, Text.spellLines_false, List.zipIdx_map, List.filterMap_map]
    refine List.filterMap_congr fun ⟨line, n⟩ hline => ?_
    have hbreak := Text.not_isLineBreak_of_mem_lines line (List.fst_mem_of_mem_zipIdx hline)
    exact Line.ofNumbered?_append_spellOut hbreak [] n
  refine ⟨hlines, ?_⟩
  rw [readAll, Reading.ofText, hlines]
  rfl

example : Text.spellOut false "a [b \"[c]\"]\"[\n]".toList =
    "a \x7bb \"[c]\" \x7d ? \"[\n \x7d ? ".toList := by
  decide

end BackusNaur

import BackusNaur.Text.Blank

/-!
# Lines

A text is cut at its line breaks; a break at the very end opens no further line.
-/

namespace BackusNaur.Text

def lines : List Char → List (List Char)
  | [] => []
  | '\r' :: '\n' :: rest => [] :: lines rest
  | c :: rest =>
    if isLineBreak c then [] :: lines rest
    else match lines rest with
      | [] => [[c]]
      | line :: others => (c :: line) :: others

theorem lines_cons_of_not_break {c : Char} (h : isLineBreak c = false) (cs : List Char) :
    lines (c :: cs) = match lines cs with
      | [] => [[c]]
      | line :: others => (c :: line) :: others := by
  have hc : c ≠ '\r' := by
    rintro rfl
    simp [isLineBreak] at h
  rw [lines.eq_def]
  split
  · rename_i heq
    cases heq
  · rename_i heq
    cases heq
    exact absurd rfl hc
  · rename_i heq
    cases heq
    rw [if_neg (by simp [h])]

theorem lines_of_not_break {line : List Char} (hne : line ≠ [])
    (h : ∀ c ∈ line, isLineBreak c = false) : lines line = [line] := by
  induction line with
  | nil => exact absurd rfl hne
  | cons c rest ih =>
    rw [lines_cons_of_not_break (h c (.head _))]
    cases rest with
    | nil => rfl
    | cons d rest => rw [ih (by simp) fun e he => h e (.tail _ he)]

theorem lines_append_newline {line : List Char} (h : ∀ c ∈ line, isLineBreak c = false)
    (rest : List Char) : lines (line ++ '\n' :: rest) = line :: lines rest := by
  induction line with
  | nil => rw [List.nil_append, lines.eq_def]; rfl
  | cons c line ih =>
    rw [List.cons_append, lines_cons_of_not_break (h c (.head _)), ih fun d hd => h d (.tail _ hd)]

theorem lines_pair (rest : List Char) : lines ('\r' :: '\n' :: rest) = [] :: lines rest := by
  rw [lines]

theorem lines_cons_of_break {c : Char} {rest : List Char} (h : isLineBreak c = true)
    (hp : c = '\r' → rest.head? ≠ some '\n') : lines (c :: rest) = [] :: lines rest := by
  rw [lines.eq_def]
  split
  · rename_i heq
    cases heq
  · rename_i heq
    cases heq
    exact absurd rfl (hp rfl)
  · rename_i heq
    cases heq
    rw [if_pos h]

theorem lines_eq_nil_iff {text : List Char} : lines text = [] ↔ text = [] := by
  constructor
  · intro h
    rw [lines.eq_def] at h
    split at h
    · rfl
    · cases h
    · split at h
      · cases h
      · split at h <;> cases h
  · rintro rfl
    rfl

/-- Where a line ends, a text is cut in two: what is before and what is after have their lines. -/
theorem lines_append {before after : List Char} (h : ∀ c, before.getLast? = some c →
    isLineBreak c = true ∧ (c = '\r' → after.head? ≠ some '\n')) :
    lines (before ++ after) = lines before ++ lines after := by
  induction before using lines.induct with
  | case1 => rfl
  | case2 rest ih =>
    have hrest : ∀ c, rest.getLast? = some c →
        isLineBreak c = true ∧ (c = '\r' → after.head? ≠ some '\n') := by
      intro c hc
      refine h c ?_
      rw [List.getLast?_cons, List.getLast?_cons, hc]
      rfl
    rw [List.cons_append, List.cons_append, lines_pair, lines_pair, ih hrest]
    rfl
  | case3 c rest hp hb ih =>
    cases rest with
    | nil =>
      obtain ⟨-, hpair⟩ := h c rfl
      exact (lines_cons_of_break hb hpair).trans (by rw [lines_cons_of_break hb (by simp)]; rfl)
    | cons d rest =>
      have hd : c = '\r' → d ≠ '\n' := fun hr hn => hp rest hr (by rw [hn])
      rw [List.cons_append, lines_cons_of_break hb (by simpa using hd), ih (by simpa using h),
        lines_cons_of_break hb (by simpa using hd)]
      rfl
  | case4 c rest hp hb hnone =>
    obtain rfl := lines_eq_nil_iff.mp hnone
    exact absurd (h c rfl).1 hb
  | case5 c rest hp hb line others hl ih =>
    have hb : isLineBreak c = false := by simpa using hb
    cases rest with
    | nil => cases hl
    | cons d rest =>
      rw [List.cons_append, lines_cons_of_not_break hb, ih (by simpa using h),
        lines_cons_of_not_break hb, hl]
      rfl

theorem lines_concat_break {w : Char} (hw : isLineBreak w = true) (text : List Char) :
    lines (text ++ [w]) = lines text ∨ lines (text ++ [w]) = lines text ++ [[]] := by
  have hone : lines [w] = [[]] := lines_cons_of_break hw (by simp)
  induction text using lines.induct with
  | case1 => exact .inr hone
  | case2 rest ih =>
    simpa only [List.cons_append, lines_pair, List.cons.injEq, true_and] using ih
  | case3 c rest hp hb ih =>
    cases rest with
    | nil =>
      by_cases hpair : c = '\r' → w ≠ '\n'
      · refine .inr ?_
        rw [List.cons_append, lines_cons_of_break hb (by simpa using hpair), List.nil_append, hone,
          lines_cons_of_break hb (by simp)]
        rfl
      · obtain ⟨rfl, rfl⟩ : c = '\r' ∧ w = '\n' := by simpa using hpair
        exact .inl rfl
    | cons d rest =>
      have hd : c = '\r' → d ≠ '\n' := fun hr hn => hp rest hr (by rw [hn])
      rw [List.cons_append, lines_cons_of_break hb (by simpa using hd),
        lines_cons_of_break hb (by simpa using hd)]
      simpa using ih
  | case4 c rest hp hb hnone =>
    have hb : isLineBreak c = false := by simpa using hb
    obtain rfl := lines_eq_nil_iff.mp hnone
    refine .inl ?_
    rw [List.cons_append, lines_cons_of_not_break hb, List.nil_append, hone,
      lines_cons_of_not_break hb, hnone]
  | case5 c rest hp hb line others hl ih =>
    have hb : isLineBreak c = false := by simpa using hb
    rw [List.cons_append, lines_cons_of_not_break hb, lines_cons_of_not_break hb, hl]
    rw [hl] at ih
    rcases ih with ih | ih <;> simp [ih]

def lineCount (text : String) : Nat := (lines text.toList).length

theorem lines_newline (text : String) :
    lines (text ++ "\n").toList = lines text.toList ∨
      lines (text ++ "\n").toList = lines text.toList ++ [[]] := by
  have hbreak : (text ++ "\n").toList = text.toList ++ ['\n'] := by simp
  rw [hbreak]
  exact lines_concat_break (by decide) _

theorem lineCount_le_newline (text : String) : lineCount text ≤ lineCount (text ++ "\n") := by
  rcases lines_newline text with h | h
  · exact Nat.le_of_eq (congrArg List.length h.symm)
  · rw [lineCount, lineCount, h, List.length_append]
    exact Nat.le_add_right ..

theorem lineCount_newline_pos (text : String) : 0 < lineCount (text ++ "\n") := by
  rw [lineCount, List.length_pos_iff, ne_eq, lines_eq_nil_iff]
  simp

/-- The text with every carriage return, alone or before a line feed, written as a line feed. -/
def unifyLineEnds : List Char → List Char
  | [] => []
  | '\r' :: '\n' :: rest => '\n' :: unifyLineEnds rest
  | '\r' :: rest => '\n' :: unifyLineEnds rest
  | c :: rest => c :: unifyLineEnds rest

end BackusNaur.Text

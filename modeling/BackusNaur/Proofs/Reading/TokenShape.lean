import BackusNaur.Proofs.Reading.Blanks
import BackusNaur.Proofs.Reading.WellFormed

/-!
# What a token can be

Lexing leaves no quote and no line break in a quoted token. An unquoted one is a stretch of text
without blanks and quotes; a brace in it is all of it, there is no square bracket in it, and each
bar inside it has a neighbour that it cannot stand alone beside.

`Line.shape_of_mem_ofText`: every token of a grammar text is like this.
-/

namespace BackusNaur

theorem mem_of_mem_pieces {α : Type} {isCut : α → Bool} {xs : List α} :
    ∀ piece ∈ pieces isCut xs, ∀ x ∈ piece, x ∈ xs := by
  induction xs with
  | nil => simp [pieces]
  | cons y xs ih =>
    obtain ⟨first, others, hp⟩ := List.exists_cons_of_ne_nil (pieces_ne_nil isCut xs)
    rw [hp] at ih
    obtain ⟨hfirst, hothers⟩ := List.forall_mem_cons.mp ih
    rw [pieces, hp]
    split
    · exact List.forall_mem_cons.mpr ⟨by simp, fun piece hm x hx => .tail _ (ih piece hm x hx)⟩
    · refine List.forall_mem_cons.mpr ⟨List.forall_mem_cons.mpr ⟨.head _, ?_⟩, ?_⟩
      · exact fun x hx => .tail _ (hfirst x hx)
      · exact fun piece hm x hx => .tail _ (hothers piece hm x hx)

namespace Text

theorem not_isLineBreak_of_mem_lines : ∀ line ∈ lines text, ∀ c ∈ line, isLineBreak c = false := by
  induction text using lines.induct with
  | case1 => simp [lines]
  | case2 rest ih =>
    rw [lines_pair]
    exact List.forall_mem_cons.mpr ⟨by simp, ih⟩
  | case3 c rest hp hb ih =>
    rw [lines.eq_3 c rest hp, if_pos hb]
    exact List.forall_mem_cons.mpr ⟨by simp, ih⟩
  | case4 c rest hp hb hnone =>
    have hb : isLineBreak c = false := by simpa using hb
    rw [lines_cons_of_not_break hb, hnone]
    simpa using hb
  | case5 c rest hp hb line others hl ih =>
    have hb : isLineBreak c = false := by simpa using hb
    rw [hl] at ih
    obtain ⟨hline, hothers⟩ := List.forall_mem_cons.mp ih
    rw [lines_cons_of_not_break hb, hl]
    exact List.forall_mem_cons.mpr ⟨List.forall_mem_cons.mpr ⟨hb, hline⟩, hothers⟩

theorem mem_of_mem_trim {c : Char} (h : c ∈ trim text) : c ∈ text := by
  obtain ⟨left, right, htext, -⟩ := exists_trim text
  rw [htext]
  exact List.mem_append_left _ (List.mem_append_right _ h)

/-- What holds of texts without blanks, and of a text with a blank in it if it holds of what is
before the blank and of what is after it, holds of every text. -/
@[elab_as_elim]
theorem cut_at_blanks {motive : List Char → Prop}
    (solid : ∀ text, (∀ c ∈ text, isBlank c = false) → motive text)
    (cut : ∀ before c after, isBlank c = true → motive before → motive after →
      motive (before ++ c :: after)) (text : List Char) : motive text := by
  by_cases hall : ∀ c ∈ text, isBlank c = false
  · exact solid text hall
  · obtain ⟨c, hc, hblank⟩ : ∃ c ∈ text, isBlank c = true := by simpa using hall
    obtain ⟨before, after, rfl⟩ := List.append_of_mem hc
    exact cut before c after hblank (cut_at_blanks solid cut before)
      (cut_at_blanks solid cut after)
termination_by text.length

theorem exists_of_words_eq {word cs : List Char} {front back : List (List Char)}
    (h : words cs = front ++ word :: back) : ∃ before after, cs = before ++ word ++ after ∧
      words before = front ∧ words after = back ∧ ∀ c ∈ word, isBlank c = false := by
  induction cs using cut_at_blanks generalizing front back with
  | solid cs hall =>
    cases cs with
    | nil => simp [words] at h
    | cons c cs =>
      rw [words_of_forall_not_blank (by simp) hall] at h
      obtain ⟨rfl, rfl, rfl⟩ : front = [] ∧ word = c :: cs ∧ back = [] := by
        simpa [List.cons_eq_append_iff] using h
      exact ⟨[], [], by simp, rfl, rfl, hall⟩
  | cut before c after hblank ihb iha =>
    rw [words_append_cons hblank] at h
    rcases append_eq_append_cons h with ⟨more, hbefore, rfl⟩ | ⟨more, rfl, hafter⟩
    · obtain ⟨left, right, rfl, hleft, hright, hword⟩ := ihb hbefore
      refine ⟨left, right ++ c :: after, by simp, hleft, ?_, hword⟩
      rw [words_append_cons hblank, hright]
    · obtain ⟨left, right, rfl, hleft, hright, hword⟩ := iha hafter
      refine ⟨before ++ c :: left, right, by simp, ?_, hright, hword⟩
      rw [words_append_cons hblank, hleft]

theorem infix_of_mem_words {word cs : List Char} (h : word ∈ words cs) :
    word <:+: cs ∧ ∀ c ∈ word, isBlank c = false := by
  obtain ⟨front, back, h⟩ := List.append_of_mem h
  obtain ⟨before, after, rfl, -, -, hword⟩ := exists_of_words_eq h
  exact ⟨⟨before, after, rfl⟩, hword⟩

theorem ne_nil_of_mem_words {text : List Char} : ∀ word ∈ words text, word ≠ [] := by
  induction text using cut_at_blanks with
  | solid text h =>
    cases text with
    | nil => nofun
    | cons c text =>
      rw [words_of_forall_not_blank (by simp) h]
      simp
  | cut before c after h ihb iha =>
    rw [words_append_cons h]
    exact List.forall_mem_append.mpr ⟨ihb, iha⟩

end Text

namespace Token

variable {piece cs : List Char} {before : Option Char}

-- ---------------------------------------------------------------------------
-- Braces
-- ---------------------------------------------------------------------------

theorem mem_spaceBrace {c d : Char} (h : d ∈ spaceBrace c) :
    d ∈ [' ', '{', '}', '?'] ∨ d = c ∧ spaceBrace c = [c] := by
  unfold spaceBrace at h ⊢
  split at h
  · exact .inl ((by decide : [' ', '{', ' '] ⊆ [' ', '{', '}', '?']) h)
  · exact .inl ((by decide : [' ', '{', ' '] ⊆ [' ', '{', '}', '?']) h)
  · exact .inl ((by decide : [' ', '}', ' '] ⊆ [' ', '{', '}', '?']) h)
  · exact .inl ((by decide : [' ', '}', ' ', '?', ' '] ⊆ [' ', '{', '}', '?']) h)
  · exact .inr ⟨List.mem_singleton.mp h, rfl⟩

theorem mem_flatMap_spaceBrace {d : Char} (h : d ∈ piece.flatMap spaceBrace) :
    d ≠ '[' ∧ d ≠ ']' ∧ (d = '"' → '"' ∈ piece) := by
  obtain ⟨c, hc, hd⟩ := List.mem_flatMap.mp h
  rcases mem_spaceBrace hd with hd | ⟨rfl, hone⟩
  · have hmade : ∀ e ∈ ['[', ']', '"'], d ≠ e := by
      rintro e he rfl
      simp only [List.mem_cons, List.not_mem_nil, or_false] at hd
      rcases hd with rfl | rfl | rfl | rfl <;> exact absurd he (by decide)
    exact ⟨hmade _ (by decide), hmade _ (by decide), fun hquote => absurd hquote
      (hmade _ (by decide))⟩
  · refine ⟨?_, ?_, fun hquote => hquote ▸ hc⟩ <;> rintro rfl <;> revert hone <;> decide

/-- Of a brace and what is next to it, one is a space. -/
def Apart (c d : Char) : Prop :=
  c ∈ ['{', '}'] ∨ d ∈ ['{', '}'] → c = ' ' ∨ d = ' '

theorem apart_space_left (d : Char) : Apart ' ' d := fun _ => .inl rfl

theorem apart_space_right (c : Char) : Apart c ' ' := fun _ => .inr rfl

theorem not_brace_of_spaceBrace {c : Char} (h : spaceBrace c = [c]) : c ∉ ['{', '}'] := by
  intro hm
  rcases List.mem_pair.mp hm with rfl | rfl <;> revert h <;> decide

theorem isChain_flatMap_spaceBrace (piece : List Char) :
    (piece.flatMap spaceBrace).IsChain Apart := by
  induction piece with
  | nil => exact .nil
  | cons c rest ih =>
    rw [List.flatMap_cons, List.isChain_append]
    refine ⟨?_, ih, fun x hx y hy => ?_⟩
    · unfold spaceBrace
      split <;> simp [Apart]
    · obtain ⟨front, hfront⟩ := List.getLast?_eq_some_iff.mp hx
      obtain ⟨back, hback⟩ := List.head?_eq_some_iff.mp hy
      rw [← List.flatMap_singleton spaceBrace] at hfront
      rcases getLast_of_flatMap_spaceBrace hfront with rfl | ⟨-, -, -, hx⟩
      · exact apart_space_left y
      rcases head_of_flatMap_spaceBrace hback with rfl | ⟨-, -, -, hy⟩
      · exact apart_space_right x
      · exact fun h => (h.elim (not_brace_of_spaceBrace hx) (not_brace_of_spaceBrace hy)).elim

-- ---------------------------------------------------------------------------
-- Bars
-- ---------------------------------------------------------------------------

theorem mem_spaceBars {d : Char} (h : d ∈ spaceBars before cs) : d = ' ' ∨ d ∈ cs := by
  induction cs generalizing before with
  | nil => cases h
  | cons c rest ih =>
    rw [spaceBars, List.mem_append] at h
    rcases h with h | h
    · split at h
      · rename_i hbar
        simp only [Bool.and_eq_true, beq_iff_eq] at hbar
        obtain ⟨⟨rfl, -⟩, -⟩ := hbar
        rcases (by simpa using h : d = ' ' ∨ d = '|' ∨ d = ' ') with rfl | rfl | rfl
        · exact .inl rfl
        · exact .inr (.head _)
        · exact .inl rfl
      · exact .inr (List.mem_singleton.mp h ▸ .head _)
    · exact (ih h).imp_right (.tail _)

theorem head?_spaceBars {d : Char} (h : (spaceBars before cs).head? = some d) :
    d = ' ' ∨ cs.head? = some d := by
  cases cs with
  | nil => cases h
  | cons c rest =>
    rw [spaceBars] at h
    split at h
    · exact .inl (Option.some.inj h).symm
    · exact .inr h

theorem isChain_spaceBars (h : cs.IsChain Apart) : (spaceBars before cs).IsChain Apart := by
  induction cs generalizing before with
  | nil => exact .nil
  | cons c rest ih =>
    obtain ⟨hhead, hrest⟩ := List.isChain_cons.mp h
    rw [spaceBars]
    split
    · refine List.isChain_append.mpr ⟨by simp [Apart], ih hrest, ?_⟩
      rintro _ ⟨⟩ y -
      exact apart_space_left y
    · refine List.isChain_cons.mpr ⟨fun y hy => ?_, ih hrest⟩
      rcases head?_spaceBars hy with rfl | hy
      · exact apart_space_right c
      · exact hhead y hy

theorem not_freesBar_of_within {a b : Char} (h : [a, '|', b] <:+: spaceBars before cs)
    (ha : a ≠ ' ') (hb : b ≠ ' ') : freesBar a = false ∨ freesBar b = false := by
  induction cs generalizing before with
  | nil => simp [spaceBars] at h
  | cons c rest ih =>
    rw [spaceBars] at h
    split at h
    · -- The bar that is set apart has spaces beside it.
      simp only [List.cons_append, List.nil_append, List.infix_cons_iff,
        List.cons_prefix_cons] at h
      rcases h with ⟨h, -⟩ | ⟨-, h, -⟩ | ⟨h, -⟩ | h
      · exact absurd h ha
      · cases h
      · exact absurd h ha
      · exact ih h
    · rw [List.singleton_append, List.infix_cons_iff] at h
      rcases h with h | h
      · obtain ⟨rfl, tail, htail⟩ := List.cons_prefix_cons.mp h
        cases rest with
        | nil => cases htail
        | cons d rest =>
          rw [spaceBars] at htail
          split at htail
          · cases htail
          · rename_i hbar
            obtain ⟨rfl, hrest⟩ := List.cons.inj htail
            have hfirst : (spaceBars (some '|') rest).head? = some b :=
              (congrArg List.head? hrest).symm
            rcases head?_spaceBars hfirst with hspace | hhead
            · exact absurd hspace hb
            · simpa [hhead, imp_iff_not_or] using hbar
      · exact ih h

-- ---------------------------------------------------------------------------
-- Tokens
-- ---------------------------------------------------------------------------

/-- What an unquoted token can be. -/
structure IsWord (text : List Char) : Prop where
  no_blank : ∀ c ∈ text, Text.isBlank c = false
  no_quote : '"' ∉ text
  no_bracket : ∀ c ∈ ['[', ']'], c ∉ text
  brace_alone : ∀ c ∈ ['{', '}'], c ∈ text → text = [c]
  bars_joined : ∀ a b, [a, '|', b] <:+: text → joinsBar a = true ∨ joinsBar b = true

/-- What a token of a grammar text can be: nothing ends a quoted one inside it, and an unquoted one
is a word. -/
inductive Shape : Token → Prop
  | quoted {text : String} (hquote : '"' ∉ text.toList)
    (hbreak : ∀ c ∈ text.toList, Text.isLineBreak c = false) : Shape ⟨text, true⟩
  | bare {text : String} (hword : IsWord text.toList) : Shape ⟨text, false⟩

theorem joinsBar_of_not_freesBar {c : Char} (h : freesBar c = false) (hquote : c ≠ '"') :
    joinsBar c = true := by
  simp only [freesBar, Bool.not_eq_false', Bool.or_eq_true, beq_iff_eq, hquote] at h
  simp only [joinsBar, Bool.or_eq_true, beq_iff_eq]
  tauto

theorem isWord_of_mem_words {word : List Char} (hpiece : '"' ∉ piece)
    (h : word ∈ Text.words (spaceBars none (piece.flatMap spaceBrace))) : IsWord word := by
  obtain ⟨hpart, hblank⟩ := Text.infix_of_mem_words h
  have hspace : ' ' ∉ word := fun hm => absurd (hblank ' ' hm) (by decide)
  have hmade : ∀ c ∈ word, c ∈ piece.flatMap spaceBrace := by
    intro c hc
    rcases mem_spaceBars (hpart.subset hc) with rfl | hm
    · exact absurd hc hspace
    · exact hm
  have hquote : '"' ∉ word := fun hm => hpiece ((mem_flatMap_spaceBrace (hmade _ hm)).2.2 rfl)
  have hapart : ∀ c d, [c, d] <:+: word → c ∉ ['{', '}'] ∧ d ∉ ['{', '}'] := by
    intro c d hcd
    obtain ⟨front, back, hcut⟩ := hcd.trans hpart
    have hchain : (front ++ [c, d] ++ back).IsChain Apart :=
      hcut ▸ isChain_spaceBars (isChain_flatMap_spaceBrace piece)
    rw [List.append_assoc] at hchain
    have hpair : Apart c d := (List.isChain_append_cons_cons.mp hchain).2.1
    have hc : c ≠ ' ' := ne_of_mem_of_not_mem (hcd.subset (by simp)) hspace
    have hd : d ≠ ' ' := ne_of_mem_of_not_mem (hcd.subset (by simp)) hspace
    exact not_or.mp fun hbrace => (hpair hbrace).elim hc hd
  refine ⟨hblank, hquote, ?_, ?_, ?_⟩
  · intro c hc hm
    obtain ⟨hopen, hclose, -⟩ := mem_flatMap_spaceBrace (hmade c hm)
    rcases List.mem_pair.mp hc with rfl | rfl
    · exact hopen rfl
    · exact hclose rfl
  · intro c hc hm
    obtain ⟨front, back, rfl⟩ := List.append_of_mem hm
    rcases List.eq_nil_or_concat front with rfl | ⟨front, b, rfl⟩
    · cases back with
      | nil => rfl
      | cons d back => exact absurd hc (hapart c d ⟨[], back, rfl⟩).1
    · exact absurd hc (hapart b c ⟨front, back, by simp⟩).2
  · intro a b hab
    have ha : a ∈ word := hab.subset (by simp)
    have hb : b ∈ word := hab.subset (by simp)
    rcases not_freesBar_of_within (hab.trans hpart) (ne_of_mem_of_not_mem ha hspace)
      (ne_of_mem_of_not_mem hb hspace) with hjoin | hjoin
    · exact .inl (joinsBar_of_not_freesBar hjoin (ne_of_mem_of_not_mem ha hquote))
    · exact .inr (joinsBar_of_not_freesBar hjoin (ne_of_mem_of_not_mem hb hquote))

theorem mem_ofPieces {t : Token} {ps : List (List Char)} (h : t ∈ ofPieces ps) :
    ∃ piece ∈ ps, t ∈ ofBare piece ∨ t = ⟨String.ofList piece, true⟩ := by
  induction ps using ofPieces.induct with
  | case1 => cases h
  | case2 bare => exact ⟨bare, .head _, .inl h⟩
  | case3 bare rest =>
    rcases List.mem_append.mp h with h | h
    · exact ⟨bare, .head _, .inl h⟩
    · split at h
      · cases h
      · exact ⟨rest, .tail _ (.head _), .inr (List.mem_singleton.mp h)⟩
  | case4 bare quoted rest hrest ih =>
    rw [ofPieces.eq_4 bare quoted rest hrest, List.mem_append, List.mem_cons] at h
    rcases h with h | h | h
    · exact ⟨bare, .head _, .inl h⟩
    · exact ⟨quoted, .tail _ (.head _), .inr h⟩
    · obtain ⟨piece, hp, h⟩ := ih h
      exact ⟨piece, .tail _ (.tail _ hp), h⟩

theorem shape_of_mem_ofLine (hline : ∀ c ∈ line, Text.isLineBreak c = false) :
    ∀ t ∈ ofLine line, t.Shape := by
  intro t ht
  obtain ⟨piece, hp, ht⟩ := mem_ofPieces ht
  have hquote : '"' ∉ piece := fun hm =>
    absurd (not_isCut_of_mem_pieces piece hp '"' hm) (by simp)
  rcases ht with ht | rfl
  · obtain ⟨word, hword, rfl⟩ := List.mem_map.mp ht
    exact .bare (by simpa using isWord_of_mem_words hquote hword)
  · have hbreak := fun c hc => hline c (mem_of_mem_pieces piece hp c hc)
    exact .quoted (by simpa using hquote) (by simpa using hbreak)

end Token

/-- The tokens of a grammar text, whatever the text is. -/
theorem Line.shape_of_mem_ofText {text : String} :
    ∀ line ∈ ofText text, ∀ t ∈ line.tokens, t.Shape := by
  intro line hline
  obtain ⟨⟨row, number⟩, hrow, hline⟩ := List.mem_filterMap.mp hline
  have hbreak : ∀ c ∈ Text.trim row, Text.isLineBreak c = false := fun c hc =>
    Text.not_isLineBreak_of_mem_lines row (List.fst_mem_of_mem_zipIdx hrow) c
      (Text.mem_of_mem_trim hc)
  dsimp only at hline
  split at hline
  · cases hline
  · cases hline
    exact Token.shape_of_mem_ofLine hbreak

end BackusNaur

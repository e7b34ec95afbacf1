import BackusNaur.Proofs.Reading.TokenShape

/-!
# Chunks of a line

Double quotes cut a line into chunks that are bare and quoted in turn. A quoted chunk is one token,
and it keeps what is before it and what is after it apart (`Token.ofLine_quoted_between`). The
tokens of a bare chunk hold what the chunk holds, but for white space and the spelling of square
brackets.

`Token.ofLine_conserves`: both of this for every chunk of every line, with what an unquoted token
can be and where in its chunk a bar inside it stands.
-/

namespace BackusNaur

-- ---------------------------------------------------------------------------
-- Text without white space
-- ---------------------------------------------------------------------------

namespace Text

def solid (text : List Char) : List Char := text.filter (!isBlank ·)

theorem solid_append (xs ys : List Char) : solid (xs ++ ys) = solid xs ++ solid ys :=
  List.filter_append xs ys

theorem solid_cons (c : Char) (text : List Char) : solid (c :: text) = solid [c] ++ solid text :=
  solid_append [c] text

theorem solid_of_forall_not_blank {text : List Char} (h : ∀ c ∈ text, isBlank c = false) :
    solid text = text :=
  List.filter_eq_self.mpr fun c hc => by simp [h c hc]

theorem flatten_words (text : List Char) : (words text).flatten = solid text := by
  induction text using cut_at_blanks with
  | solid text h =>
    cases text with
    | nil => rfl
    | cons c text =>
      rw [words_of_forall_not_blank (by simp) h, List.flatten_singleton,
        solid_of_forall_not_blank h]
  | cut before c after h ihb iha =>
    have hc : solid [c] = [] := by simp [solid, h]
    rw [words_append_cons h, List.flatten_append, ihb, iha, solid_append, solid_cons c, hc]
    rfl

end Text

-- ---------------------------------------------------------------------------
-- Chunks
-- ---------------------------------------------------------------------------

/-- A stretch of a line: text outside quotes, text between two quotes, or the text behind a quote
that no other closes. -/
inductive Chunk where
  | bare (text : List Char)
  | quoted (text : List Char)
  | unclosed (text : List Char)

/-- A line is cut at its quotes into chunks that are bare and quoted in turn. -/
inductive Chunk.Cuts : List Char → List Chunk → Prop
  | last (h : '"' ∉ text) : Cuts text [.bare text]
  | unclosed (h : '"' ∉ text) (hi : '"' ∉ inside) :
      Cuts (text ++ '"' :: inside) [.bare text, .unclosed inside]
  | quoted (h : '"' ∉ text) (hi : '"' ∉ inside) (hrest : Cuts rest chunks) :
      Cuts (text ++ '"' :: inside ++ '"' :: rest) (.bare text :: .quoted inside :: chunks)

namespace Token

def braceFor : Char → List Char
  | '[' => ['{']
  | ']' => ['}', '?']
  | c => [c]

def chars (ts : List Token) : List Char := ts.flatMap (·.text.toList)

/-- Between `before` and `after` a bar does not stand alone: it is at an end, or next to a character
that joins it. -/
def HoldsBar (before after : List Char) : Prop :=
  before = [] ∨ after = [] ∨ before.getLast?.any joinsBar = true ∨ after.head?.any joinsBar = true

/-- The tokens say what the bare text says, and each of them is a word. A bar in a longer token is
found again in the text with its brackets spelled as braces, at the place that what is written
before and after it tells. -/
structure Conserve (ts : List Token) (text : List Char) : Prop where
  unquoted : ∀ t ∈ ts, t.quoted = false
  chars_eq : chars ts = (Text.solid text).flatMap braceFor
  words : ∀ t ∈ ts, t.text ≠ "" ∧ IsWord t.text.toList
  bars : ∀ front t back a b, ts = front ++ t :: back → t.text.toList = a ++ '|' :: b →
    1 < t.text.length → ∃ before after, text.flatMap spaceBrace = before ++ '|' :: after ∧
      Text.solid before = chars front ++ a ∧ Text.solid after = b ++ chars back ∧
      HoldsBar before after

end Token

/-- What a chunk is read as: a closed quotation as one token even if it is empty, one that is not
closed only if it is not empty. -/
inductive Chunk.Gives : Chunk → List Token → Prop
  | bare (h : Token.Conserve ts text) : Gives (.bare text) ts
  | quoted : Gives (.quoted text) [⟨String.ofList text, true⟩]
  | unclosed (h : text ≠ []) : Gives (.unclosed text) [⟨String.ofList text, true⟩]
  | nothing : Gives (.unclosed []) []

-- ---------------------------------------------------------------------------
-- Bare chunks
-- ---------------------------------------------------------------------------

namespace Token

variable {text cs a b p q : List Char} {before : Option Char}

theorem solid_spaceBrace (c : Char) :
    Text.solid (spaceBrace c) = (Text.solid [c]).flatMap braceFor := by
  unfold spaceBrace
  split
  · rfl
  · rfl
  · rfl
  · rfl
  · rename_i hopen _ hclose
    have hc : braceFor c = [c] := braceFor.eq_3 c hopen hclose
    cases hb : Text.isBlank c <;> simp [Text.solid, hb, hc]

theorem solid_flatMap_spaceBrace (text : List Char) :
    Text.solid (text.flatMap spaceBrace) = (Text.solid text).flatMap braceFor := by
  induction text with
  | nil => rfl
  | cons c text ih =>
    rw [List.flatMap_cons, Text.solid_append, solid_spaceBrace, ih, ← List.flatMap_append,
      ← Text.solid_cons]

theorem solid_spaceBars (before : Option Char) (cs : List Char) :
    Text.solid (spaceBars before cs) = Text.solid cs := by
  induction cs generalizing before with
  | nil => rfl
  | cons c cs ih =>
    rw [spaceBars, Text.solid_append, ih, Text.solid_cons c]
    split
    · rename_i hbar
      simp only [Bool.and_eq_true, beq_iff_eq] at hbar
      obtain ⟨⟨rfl, -⟩, -⟩ := hbar
      rfl
    · rfl

theorem exists_of_spaceBars_eq {front back : List Char}
    (h : spaceBars before cs = front ++ '|' :: back) :
    ∃ x y, cs = x ++ '|' :: y ∧ Text.solid x = Text.solid front ∧ Text.solid y = Text.solid back ∧
      ((front.getLast? = some ' ' ∧ back.head? = some ' ') ∨
        ((x.getLast?.or before).any freesBar && y.head?.any freesBar) = false) := by
  induction cs generalizing before front with
  | nil => simp [spaceBars] at h
  | cons c cs ih =>
    rw [spaceBars] at h
    rcases append_eq_append_cons h with ⟨more, hown, rfl⟩ | ⟨more, rfl, hrest⟩
    · -- The bar is the first character, with or without spaces beside it.
      split at hown
      · rename_i hbar
        obtain ⟨rfl, rfl⟩ : front = [' '] ∧ more = [' '] := by
          simpa [List.cons_eq_append_iff] using hown
        simp only [Bool.and_eq_true, beq_iff_eq] at hbar
        obtain ⟨⟨rfl, -⟩, -⟩ := hbar
        refine ⟨[], cs, rfl, rfl, ?_, .inl ⟨rfl, rfl⟩⟩
        rw [Text.solid_append, solid_spaceBars]
        rfl
      · rename_i hbar
        obtain ⟨rfl, hcons⟩ := List.singleton_eq_append_iff.mp hown |>.resolve_right (by simp)
        obtain ⟨rfl, rfl⟩ := List.cons.inj hcons
        refine ⟨[], cs, rfl, rfl, ?_, .inr (by simpa using hbar)⟩
        rw [List.nil_append, solid_spaceBars]
    · have hown := solid_spaceBars before (c :: cs)
      rw [spaceBars, Text.solid_append, solid_spaceBars, Text.solid_cons] at hown
      obtain ⟨x, y, rfl, hx, hy, hset⟩ := ih hrest
      refine ⟨c :: x, y, rfl, ?_, hy, ?_⟩
      · rw [Text.solid_append, List.append_cancel_right hown, Text.solid_cons, hx]
      · rw [getLast?_cons_or]
        refine hset.imp_left fun hspace => ⟨?_, hspace.2⟩
        rw [List.getLast?_append, hspace.1]
        rfl

theorem holdsBar_of_not_freesBar {x y : List Char} (hx : '"' ∉ x) (hy : '"' ∉ y)
    (h : (x.getLast?.any freesBar && y.head?.any freesBar) = false) : HoldsBar x y := by
  cases hlast : x.getLast? with
  | none => exact .inl (List.getLast?_eq_none_iff.mp hlast)
  | some c =>
    cases hhead : y.head? with
    | none => exact .inr (.inl (List.head?_eq_none_iff.mp hhead))
    | some d =>
      rw [hlast, hhead, Option.any_some, Option.any_some, Bool.and_eq_false_iff] at h
      refine .inr (.inr ?_)
      rw [hlast, hhead]
      refine h.imp (fun hc => joinsBar_of_not_freesBar hc ?_) fun hd =>
        joinsBar_of_not_freesBar hd ?_
      · exact ne_of_mem_of_not_mem (List.mem_of_getLast? hlast) hx
      · exact ne_of_mem_of_not_mem (List.mem_of_head? hhead) hy

theorem chars_map (words : List (List Char)) :
    chars (words.map fun word => ⟨String.ofList word, false⟩) = words.flatten := by
  rw [chars, List.flatMap_map, List.flatMap_def]
  simp

theorem exists_holdsBar {words others : List (List Char)} (hquote : '"' ∉ text)
    (h : Text.words (spaceBars none (text.flatMap spaceBrace)) =
      words ++ (a ++ '|' :: b) :: others) (hlong : a ≠ [] ∨ b ≠ []) :
    ∃ x y, text.flatMap spaceBrace = x ++ '|' :: y ∧ Text.solid x = words.flatten ++ a ∧
      Text.solid y = b ++ others.flatten ∧ HoldsBar x y := by
  obtain ⟨front, back, hcut, hfront, hback, hblank⟩ := Text.exists_of_words_eq h
  obtain ⟨ha, -, hb⟩ := by simpa only [List.forall_mem_append, List.forall_mem_cons] using hblank
  have hspaced : spaceBars none (text.flatMap spaceBrace) = (front ++ a) ++ '|' :: (b ++ back) := by
    rw [hcut]
    simp
  obtain ⟨x, y, hxy, hx, hy, hset⟩ := exists_of_spaceBars_eq hspaced
  have hmade : '"' ∉ x ++ '|' :: y := fun hm =>
    hquote ((mem_flatMap_spaceBrace (hxy ▸ hm)).2.2 rfl)
  refine ⟨x, y, hxy, ?_, ?_, ?_⟩
  · rw [hx, Text.solid_append, ← Text.flatten_words, hfront, Text.solid_of_forall_not_blank ha]
  · rw [hy, Text.solid_append, ← Text.flatten_words back, hback, Text.solid_of_forall_not_blank hb]
  · rcases hset with ⟨hlast, hhead⟩ | hfrees
    · -- A bar with spaces beside it is a word by itself.
      rcases hlong with hne | hne
      · rw [List.getLast?_append_of_ne_nil _ hne] at hlast
        exact absurd (ha ' ' (List.mem_of_getLast? hlast)) (by decide)
      · rw [List.head?_append_of_ne_nil _ hne] at hhead
        exact absurd (hb ' ' (List.mem_of_head? hhead)) (by decide)
    · rw [Option.or_none] at hfrees
      refine holdsBar_of_not_freesBar ?_ ?_ hfrees
      · exact fun hm => hmade (by simp [hm])
      · exact fun hm => hmade (by simp [hm])

theorem conserve_ofBare (hquote : '"' ∉ text) : Conserve (ofBare text) text where
  unquoted := by
    intro t ht
    obtain ⟨word, -, rfl⟩ := List.mem_map.mp ht
    rfl
  chars_eq := by
    rw [ofBare, chars_map, Text.flatten_words, solid_spaceBars, solid_flatMap_spaceBrace]
  words := by
    intro t ht
    obtain ⟨word, hword, rfl⟩ := List.mem_map.mp ht
    have hne := Text.ne_nil_of_mem_words word hword
    exact ⟨by simpa using hne, by simpa using isWord_of_mem_words hquote hword⟩
  bars := by
    intro front t back a b hts htext hlong
    obtain ⟨words, others, hwords, rfl, hback⟩ := List.map_eq_append_iff.mp hts
    obtain ⟨word, others, rfl, rfl, rfl⟩ := List.map_eq_cons_iff.mp hback
    rw [String.toList_ofList] at htext
    subst htext
    rw [chars_map, chars_map]
    refine exists_holdsBar hquote hwords ?_
    by_contra hshort
    obtain ⟨rfl, rfl⟩ : a = [] ∧ b = [] := by simpa using hshort
    exact absurd hlong (by decide)

-- ---------------------------------------------------------------------------
-- Lines
-- ---------------------------------------------------------------------------

theorem ofLine_append_quoted (hp : '"' ∉ p) (hq : '"' ∉ q) (b : List Char) :
    ofLine (p ++ '"' :: q ++ '"' :: b) = ofBare p ++ ⟨String.ofList q, true⟩ :: ofLine b := by
  obtain ⟨first, others, hb⟩ := List.exists_cons_of_ne_nil (pieces_ne_nil (· == '"') b)
  rw [ofLine, List.append_assoc, List.cons_append, pieces_append_cons rfl, pieces_append_cons rfl,
    pieces_of_no_quote hp, pieces_of_no_quote hq, ofLine, hb]
  rfl

theorem ofLine_append_unclosed (hp : '"' ∉ p) (hq : '"' ∉ q) :
    ofLine (p ++ '"' :: q) =
      ofBare p ++ if q.isEmpty then [] else [⟨String.ofList q, true⟩] := by
  rw [ofLine, pieces_append_cons rfl, pieces_of_no_quote hp, pieces_of_no_quote hq]
  rfl

/-- A quotation is one token and cuts the line in two. Nothing in it, before it or after it makes a
difference to the tokens of the others. -/
theorem ofLine_quoted_between (a q b : List Char) (ha : a.count '"' % 2 = 0) (hq : '"' ∉ q) :
    ofLine (a ++ '"' :: q ++ '"' :: b) = ofLine a ++ ⟨String.ofList q, true⟩ :: ofLine b := by
  obtain ⟨ts, p, -, hp, hline⟩ := exists_ofLine_append ha
  have hfront : ofLine a = ts ++ ofBare p := by
    have h := hline []
    rwa [List.append_nil, List.append_nil, ofLine_of_no_quote hp] at h
  calc ofLine (a ++ '"' :: q ++ '"' :: b)
      = ts ++ ofLine (p ++ '"' :: q ++ '"' :: b) := by simpa using hline ('"' :: q ++ '"' :: b)
    _ = ts ++ (ofBare p ++ ⟨String.ofList q, true⟩ :: ofLine b) := by
      rw [ofLine_append_quoted hp hq]
    _ = ofLine a ++ ⟨String.ofList q, true⟩ :: ofLine b := by rw [hfront, List.append_assoc]

theorem ofLine_quoted_operators :
    ofLine ("\"x\" +|".toList ++ '"' :: "\x7d | <y> ::=".toList ++ '"' :: "|-[".toList) =
      [⟨"x", true⟩, ⟨"+|", false⟩, ⟨"\x7d | <y> ::=", true⟩, ⟨"|-", false⟩, ⟨"\x7b", false⟩] :=
  (ofLine_quoted_between _ _ _ (by decide) (by decide)).trans (by decide)

end Token

namespace Chunk

variable {line : List Char} {chunks others : List Chunk}

theorem exists_cuts (line : List Char) : ∃ chunks, Cuts line chunks := by
  by_cases h : '"' ∈ line
  · obtain ⟨text, rest, rfl, htext⟩ := List.eq_append_cons_of_mem h
    by_cases hrest : '"' ∈ rest
    · obtain ⟨inside, rest, rfl, hinside⟩ := List.eq_append_cons_of_mem hrest
      obtain ⟨chunks, hchunks⟩ := exists_cuts rest
      refine ⟨.bare text :: .quoted inside :: chunks, ?_⟩
      rw [← List.cons_append, ← List.append_assoc]
      exact .quoted htext hinside hchunks
    · exact ⟨_, .unclosed htext hrest⟩
  · exact ⟨_, .last h⟩
termination_by line.length

def ofPieces : List (List Char) → List Chunk
  | [] => []
  | [text] => [.bare text]
  | [text, inside] => [.bare text, .unclosed inside]
  | text :: inside :: rest => .bare text :: .quoted inside :: ofPieces rest

theorem Cuts.eq_ofPieces (h : Cuts line chunks) :
    chunks = ofPieces (pieces (· == '"') line) := by
  induction h with
  | last h =>
    rw [Token.pieces_of_no_quote h]
    rfl
  | unclosed h hi =>
    rw [pieces_append_cons rfl, Token.pieces_of_no_quote h, Token.pieces_of_no_quote hi]
    rfl
  | @quoted text inside rest chunks h hi _ ih =>
    obtain ⟨first, others, hrest⟩ := List.exists_cons_of_ne_nil (pieces_ne_nil (· == '"') rest)
    rw [List.append_assoc, List.cons_append, pieces_append_cons rfl, pieces_append_cons rfl,
      Token.pieces_of_no_quote h, Token.pieces_of_no_quote hi, ih, hrest]
    rfl

theorem Cuts.unique (h : Cuts line chunks) (h' : Cuts line others) : others = chunks :=
  h'.eq_ofPieces.trans h.eq_ofPieces.symm

theorem Cuts.exists_gives (h : Cuts line chunks) :
    ∃ parts, Token.ofLine line = parts.flatten ∧ List.Forall₂ Gives chunks parts := by
  induction h with
  | @last text h =>
    refine ⟨[Token.ofBare text], ?_, .cons (.bare (Token.conserve_ofBare h)) .nil⟩
    rw [Token.ofLine_of_no_quote h, List.flatten_singleton]
  | @unclosed text inside h hi =>
    rw [Token.ofLine_append_unclosed h hi]
    have hbare := Token.conserve_ofBare h
    cases inside with
    | nil => exact ⟨[Token.ofBare text, []], by simp, .cons (.bare hbare) (.cons .nothing .nil)⟩
    | cons c inside =>
      refine ⟨[Token.ofBare text, [⟨String.ofList (c :: inside), true⟩]], by simp, ?_⟩
      exact .cons (.bare hbare) (.cons (.unclosed (by simp)) .nil)
  | @quoted text inside rest chunks h hi _ ih =>
    obtain ⟨parts, hparts, hgives⟩ := ih
    refine ⟨Token.ofBare text :: [⟨String.ofList inside, true⟩] :: parts, ?_, ?_⟩
    · rw [Token.ofLine_append_quoted h hi, hparts]
      simp
    · exact .cons (.bare (Token.conserve_ofBare h)) (.cons .quoted hgives)

end Chunk

/-- A line has one row of chunks, and its tokens are those of the chunks one after the other. A
closed quotation is one token, and so is one that is not closed if there is something in it. The
tokens of bare text conserve what it says, are words, and hold no bar that could stand alone. -/
theorem Token.ofLine_conserves (line : List Char) : ∃ chunks parts,
    (∀ others, Chunk.Cuts line others ↔ others = chunks) ∧
      ofLine line = parts.flatten ∧ List.Forall₂ Chunk.Gives chunks parts := by
  obtain ⟨chunks, hcuts⟩ := Chunk.exists_cuts line
  obtain ⟨parts, hline, hgives⟩ := hcuts.exists_gives
  refine ⟨chunks, parts, fun others => ⟨hcuts.unique, ?_⟩, hline, hgives⟩
  rintro rfl
  exact hcuts

end BackusNaur

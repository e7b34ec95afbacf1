import BackusNaur.Token.Line

/-!
# Lexing in parts

A line that is put together from parts has the tokens of its parts: `Token.Lexes.space` and
`Token.Lexes.bar` put two parts next to each other with a space or a free-standing bar between
them.

Two things could keep a part from being read on its own. An open quote would take in what comes
after it, and whether a bar stands alone depends on what is next to it. So a part has an even number
of quotes, and neither begins nor ends in a bar.
-/

namespace BackusNaur

namespace Token

-- ---------------------------------------------------------------------------
-- Bare text
-- ---------------------------------------------------------------------------

variable {x y : List Char}

theorem spaceBars_append_cons {c : Char} (hc : c ≠ '|') (hx : x.getLast? ≠ some '|')
    (before : Option Char) (y : List Char) :
    spaceBars before (x ++ c :: y) = spaceBars before x ++ c :: spaceBars (some c) y := by
  induction x generalizing before with
  | nil => simp [spaceBars, hc]
  | cons d x ih =>
    cases x with
    | nil =>
      have hd : d ≠ '|' := by simpa using hx
      simp [spaceBars, hc, hd]
    | cons e x =>
      have hlast : (e :: x).getLast? ≠ some '|' := by simpa [List.getLast?_cons_cons] using hx
      rw [List.cons_append, spaceBars, ih hlast, ← List.append_assoc]
      rfl

theorem spaceBars_of_head (hx : x.head? ≠ some '|') (before : Option Char) :
    spaceBars before x = spaceBars none x := by
  cases x with
  | nil => rfl
  | cons c x =>
    have hc : c ≠ '|' := by simpa using hx
    simp [spaceBars, hc]

theorem head?_spaceBrace (hx : x.head? ≠ some '|') :
    (x.flatMap spaceBrace).head? ≠ some '|' := by
  cases x with
  | nil => simp
  | cons c x =>
    rw [List.flatMap_cons, List.head?_append]
    have hc : c ≠ '|' := by simpa using hx
    unfold spaceBrace
    split <;> simp [hc]

theorem getLast?_spaceBrace (hx : x.getLast? ≠ some '|') :
    (x.flatMap spaceBrace).getLast? ≠ some '|' := by
  rcases List.eq_nil_or_concat x with rfl | ⟨x, c, rfl⟩
  · simp
  · have hc : c ≠ '|' := by simpa using hx
    rw [List.concat_eq_append, List.flatMap_append, List.getLast?_append, List.flatMap_singleton]
    unfold spaceBrace
    split <;> simp [hc]

theorem ofBare_space (hx : x.getLast? ≠ some '|') (hy : y.head? ≠ some '|') :
    ofBare (x ++ ' ' :: y) = ofBare x ++ ofBare y := by
  have hs : (x ++ ' ' :: y).flatMap spaceBrace =
      x.flatMap spaceBrace ++ ' ' :: y.flatMap spaceBrace := by
    rw [List.flatMap_append, List.flatMap_cons]
    rfl
  rw [ofBare, hs, spaceBars_append_cons (by decide) (getLast?_spaceBrace hx),
    spaceBars_of_head (head?_spaceBrace hy), Text.words_append_cons (by decide), List.map_append]
  rfl

theorem ofBare_bar (hx : x.getLast? ≠ some '|') (hy : y.head? ≠ some '|') :
    ofBare (x ++ ' ' :: '|' :: ' ' :: y) = ofBare x ++ ⟨"|", false⟩ :: ofBare y := by
  have hs : (x ++ ' ' :: '|' :: ' ' :: y).flatMap spaceBrace =
      x.flatMap spaceBrace ++ ' ' :: '|' :: ' ' :: y.flatMap spaceBrace := by
    rw [List.flatMap_append, List.flatMap_cons, List.flatMap_cons, List.flatMap_cons]
    rfl
  have hb : spaceBars (some ' ') ('|' :: ' ' :: y.flatMap spaceBrace) =
      ' ' :: '|' :: ' ' :: ' ' :: spaceBars none (y.flatMap spaceBrace) := by
    rw [spaceBars, spaceBars, spaceBars_of_head (head?_spaceBrace hy)]
    rfl
  have hw : ∀ z, Text.words ('|' :: ' ' :: ' ' :: z) = ['|'] :: Text.words z := by
    intro z
    refine (Text.words_append_cons rfl ['|'] (' ' :: z)).trans ?_
    rw [Text.words_cons_of_blank rfl z]
    rfl
  rw [ofBare, hs, spaceBars_append_cons (by decide) (getLast?_spaceBrace hx), hb,
    Text.words_append_cons rfl, Text.words_cons_of_blank rfl, hw, List.map_append]
  rfl

-- ---------------------------------------------------------------------------
-- Pieces
-- ---------------------------------------------------------------------------

theorem ofPieces_cons (others : List (List Char)) :
    ∃ ts, ∀ first, ofPieces (first :: others) = ofBare first ++ ts := by
  match others with
  | [] => exact ⟨[], fun first => by simp [ofPieces]⟩
  | [rest] => exact ⟨_, fun first => rfl⟩
  | quoted :: second :: others => exact ⟨_, fun first => rfl⟩

theorem ofPieces_append (front : List (List Char)) (he : front.length % 2 = 0) :
    ∃ ts, ∀ bare others, ofPieces (front ++ bare :: others) = ts ++ ofPieces (bare :: others) := by
  match front with
  | [] => exact ⟨[], fun _ _ => rfl⟩
  | [_] => simp at he
  | first :: quoted :: front =>
    obtain ⟨ts, ht⟩ := ofPieces_append front (by simp only [List.length_cons] at he; omega)
    refine ⟨ofBare first ++ ⟨String.ofList quoted, true⟩ :: ts, fun bare others => ?_⟩
    show ofPieces (first :: quoted :: (front ++ bare :: others)) = _
    rw [List.append_assoc, List.cons_append, ← ht]
    cases front <;> rfl

theorem pieces_of_no_quote {text : List Char} (h : '"' ∉ text) :
    pieces (· == '"') text = [text] := by
  refine pieces_of_forall_not fun c hc => ?_
  rw [beq_eq_false_iff_ne]
  rintro rfl
  exact h hc

theorem exists_pieces_eq_append (line : List Char) :
    ∃ front last, pieces (· == '"') line = front ++ [last] ∧ front.length = line.count '"' := by
  rcases List.eq_nil_or_concat (pieces (· == '"') line) with h | ⟨front, last, h⟩
  · exact absurd h (pieces_ne_nil _ _)
  · rw [List.concat_eq_append] at h
    have hl := length_pieces (· == '"') line
    rw [h, List.length_append] at hl
    exact ⟨front, last, h, Nat.succ.inj hl⟩

theorem ofLine_of_no_quote {text : List Char} (h : '"' ∉ text) : ofLine text = ofBare text := by
  rw [ofLine, pieces_of_no_quote h]
  rfl

theorem exists_ofLine_append {a : List Char} (he : a.count '"' % 2 = 0) :
    ∃ ts p, p <:+ a ∧ '"' ∉ p ∧ ∀ y, ofLine (a ++ y) = ts ++ ofLine (p ++ y) := by
  obtain ⟨front, p, ha, hl⟩ := exists_pieces_eq_append a
  obtain ⟨ts, hts⟩ := ofPieces_append front (hl ▸ he)
  obtain ⟨before, hp, -⟩ := eq_append_of_pieces ha
  have hquote : '"' ∉ p := fun hm =>
    absurd (not_isCut_of_mem_pieces p (ha ▸ List.mem_append_right front (.head _)) '"' hm) (by simp)
  refine ⟨ts, p, ⟨before, hp.symm⟩, hquote, fun y => ?_⟩
  obtain ⟨first, others, hy⟩ := List.exists_cons_of_ne_nil (pieces_ne_nil (· == '"') y)
  have hbare : pieces (· == '"') p = [] ++ [p] := pieces_of_no_quote hquote
  rw [ofLine, ofLine, pieces_append ha hy, pieces_append hbare hy, hts]
  rfl

theorem exists_append_ofLine (b : List Char) :
    ∃ q us, q <+: b ∧ ∀ x, '"' ∉ x → ofLine (x ++ b) = ofBare (x ++ q) ++ us := by
  obtain ⟨q, others, hb⟩ := List.exists_cons_of_ne_nil (pieces_ne_nil (· == '"') b)
  obtain ⟨us, hus⟩ := ofPieces_cons others
  refine ⟨q, us, prefix_of_pieces hb, fun x hx => ?_⟩
  have hbare : pieces (· == '"') x = [] ++ [x] := pieces_of_no_quote hx
  rw [ofLine, pieces_append hbare hb, ← hus]
  rfl

theorem ofLine_between {a sep b : List Char} {ss : List Token} (he : a.count '"' % 2 = 0)
    (hsep : '"' ∉ sep)
    (hs : ∀ p q, p <:+ a → q <+: b → ofBare (p ++ sep ++ q) = ofBare p ++ ss ++ ofBare q) :
    ofLine (a ++ sep ++ b) = ofLine a ++ ss ++ ofLine b := by
  obtain ⟨ts, p, hpa, hp, ha⟩ := exists_ofLine_append he
  obtain ⟨q, us, hqb, hb⟩ := exists_append_ofLine b
  have hfront := ha []
  have hback := hb [] (by simp)
  rw [List.append_nil, List.append_nil, ofLine_of_no_quote hp] at hfront
  rw [List.nil_append, List.nil_append] at hback
  calc ofLine (a ++ sep ++ b)
      = ts ++ (ofBare (p ++ sep ++ q) ++ us) := by
        rw [List.append_assoc, ha, ← List.append_assoc p, hb _ (by simp [hp, hsep])]
    _ = ts ++ (ofBare p ++ ss ++ ofBare q ++ us) := by rw [hs p q hpa hqb]
    _ = ofLine a ++ ss ++ ofLine b := by rw [hfront, hback]; simp

-- ---------------------------------------------------------------------------
-- Parts of a line
-- ---------------------------------------------------------------------------

/-- A part of a line that can stand next to others, and its tokens. -/
structure Lexes (part : List Char) (ts : List Token) : Prop where
  no_break : ∀ c ∈ part, Text.isLineBreak c = false
  even : part.count '"' % 2 = 0
  head : part.head? ≠ some '|'
  last : part.getLast? ≠ some '|'
  ofLine_eq : ofLine part = ts

namespace Lexes

variable {a b : List Char} {ts us : List Token}

theorem last_of_suffix (ha : Lexes a ts) (hp : p <:+ a) : p.getLast? ≠ some '|' := by
  obtain ⟨before, rfl⟩ := hp
  intro h
  refine ha.last ?_
  rw [List.getLast?_append, h]
  rfl

theorem head_of_prefix (ha : Lexes a ts) (hp : p <+: a) : p.head? ≠ some '|' := by
  obtain ⟨after, rfl⟩ := hp
  intro h
  refine ha.head ?_
  rw [List.head?_append, h]
  rfl

theorem head_append (ha : Lexes a ts) (b : List Char) : (a ++ ' ' :: b).head? ≠ some '|' := by
  rw [List.head?_append]
  cases h : a.head? with
  | none => simp
  | some c =>
    have hc := ha.head
    rwa [h] at hc

theorem last_append (hb : Lexes b us) (a : List Char) : (a ++ ' ' :: b).getLast? ≠ some '|' := by
  rw [List.getLast?_append, List.getLast?_cons]
  cases h : b.getLast? with
  | none => simp
  | some c =>
    have hc := hb.last
    rwa [h] at hc

theorem space (ha : Lexes a ts) (hb : Lexes b us) : Lexes (a ++ ' ' :: b) (ts ++ us) where
  no_break := List.forall_mem_append.mpr
    ⟨ha.no_break, List.forall_mem_cons.mpr ⟨by decide, hb.no_break⟩⟩
  even := by
    have hae := ha.even
    have hbe := hb.even
    rw [List.count_append, List.count_cons_of_ne (by decide)]
    omega
  head := ha.head_append b
  last := hb.last_append a
  ofLine_eq := by
    rw [List.append_cons, ← ha.ofLine_eq, ← hb.ofLine_eq, ← List.append_nil (ofLine a)]
    refine ofLine_between ha.even (by decide) fun p q hp hq => ?_
    rw [List.append_nil, List.append_assoc]
    exact ofBare_space (ha.last_of_suffix hp) (hb.head_of_prefix hq)

theorem bar (ha : Lexes a ts) (hb : Lexes b us) :
    Lexes (a ++ ' ' :: '|' :: ' ' :: b) (ts ++ ⟨"|", false⟩ :: us) where
  no_break := by
    rw [List.append_cons, List.append_cons]
    refine List.forall_mem_append.mpr ⟨?_, List.forall_mem_cons.mpr ⟨by decide, hb.no_break⟩⟩
    simpa [or_imp, forall_and] using ⟨ha.no_break, by decide⟩
  even := by
    have hae := ha.even
    have hbe := hb.even
    rw [List.count_append, List.count_cons_of_ne (by decide), List.count_cons_of_ne (by decide),
      List.count_cons_of_ne (by decide)]
    omega
  head := ha.head_append _
  last := by
    rw [List.append_cons, List.append_cons]
    exact hb.last_append _
  ofLine_eq := by
    have hsep : a ++ ' ' :: '|' :: ' ' :: b = a ++ [' ', '|', ' '] ++ b := by simp
    have hquote : '"' ∉ [' ', '|', ' '] := by decide
    rw [hsep, ← ha.ofLine_eq, ← hb.ofLine_eq, List.append_cons (ofLine a)]
    refine ofLine_between ha.even hquote fun p q hp hq => ?_
    rw [List.append_assoc, List.append_assoc]
    exact ofBare_bar (ha.last_of_suffix hp) (hb.head_of_prefix hq)

end Lexes

theorem lexes_nil : Lexes [] [] := ⟨nofun, rfl, by simp, by simp, rfl⟩

theorem lexes_quoted {text : List Char} (h : '"' ∉ text)
    (hn : ∀ c ∈ text, Text.isLineBreak c = false) :
    Lexes ('"' :: text ++ ['"']) [⟨String.ofList text, true⟩] where
  no_break := by
    rintro c (_ | ⟨_, hc⟩)
    · decide
    · rcases List.mem_append.mp hc with hc | hc
      · exact hn c hc
      · obtain rfl := List.mem_singleton.mp hc
        decide
  even := by
    rw [List.count_append, List.count_cons_self, List.count_eq_zero_of_not_mem h]
    rfl
  head := by simp
  last := by
    rw [List.getLast?_append]
    simp
  ofLine_eq := by
    have hl : pieces (· == '"') ([] ++ '"' :: (text ++ ['"'])) = [[], text, []] := by
      rw [pieces_append_cons rfl, pieces_append_cons rfl, pieces_of_no_quote h]
      rfl
    exact congrArg ofPieces hl

end Token

end BackusNaur

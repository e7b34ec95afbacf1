import BackusNaur.Proofs.Reading.Lexing
import BackusNaur.Proofs.Reading.WellFormed

/-!
# Written definitions

A right-hand side as tokens, and that it is written so that lexing finds these tokens:
`Node.WellFormed.lexes` and, for the line of a whole definition, `lexes_definitionLine`.
-/

namespace BackusNaur

def definitionLine (name : String) (node : Node) : String := s!"<{name}> ::= {node.render}"

def definitionLines (definitions : List (String × Node)) : String :=
  "\n".intercalate (definitions.map fun d => definitionLine d.1 d.2)

-- ---------------------------------------------------------------------------
-- Tokens
-- ---------------------------------------------------------------------------

def Token.ofName (name : String) : Token := ⟨s!"<{name}>", false⟩

def Item.token : Item → Token
  | literal text => ⟨text, true⟩
  | reference name => .ofName name

def Segment.tokens : Segment → List Token
  | run items => items.map Item.token
  | group items quantifier =>
    ⟨"\x7b", false⟩ :: items.map Item.token ++ [⟨"\x7d", false⟩, ⟨quantifier.render, false⟩]

def Node.tokens : Node → List Token
  | alternation left right => left.tokens ++ ⟨"|", false⟩ :: right.tokens
  | sequence parts => parts.flatMap Segment.tokens

-- ---------------------------------------------------------------------------
-- Symbols
-- ---------------------------------------------------------------------------

theorem any_freesBar_of_joinsBar {c : Option Char} (h : c.any joinsBar = true) :
    c.any Token.freesBar = false := by
  cases c with
  | none => rfl
  | some c =>
    simp only [Option.any_some, joinsBar, Bool.or_eq_true, or_assoc] at h
    simp only [Option.any_some, Token.freesBar, Bool.not_eq_false', Bool.or_eq_true, or_assoc]
    tauto

namespace Token

theorem spaceBars_eq_self {done rest : List Char}
    (h : ∀ before after, done ++ rest = before ++ '|' :: after →
      before.getLast?.any joinsBar = true ∨ after.head?.any joinsBar = true) :
    spaceBars done.getLast? rest = rest := by
  induction rest generalizing done with
  | nil => rfl
  | cons c rest ih =>
    have hfree : (c == '|' && done.getLast?.any freesBar && rest.head?.any freesBar) = false := by
      cases hc : c == '|' with
      | false => rfl
      | true =>
        obtain rfl := eq_of_beq hc
        rcases h done rest rfl with hj | hj <;> simp [any_freesBar_of_joinsBar hj]
    have hrest := @ih (done ++ [c]) (by simpa using h)
    rw [List.getLast?_concat] at hrest
    rw [spaceBars, hfree, hrest]
    rfl

theorem flatMap_spaceBrace_eq_self {text : List Char}
    (h : ∀ c ∈ ['{', '}', '[', ']'], c ∉ text) : text.flatMap spaceBrace = text := by
  induction text with
  | nil => rfl
  | cons c rest ih =>
    have hc : spaceBrace c = [c] := by
      unfold spaceBrace
      split <;> first | rfl | simp at h
    rw [List.flatMap_cons, hc, ih fun d hd hm => h d hd (.tail _ hm)]
    rfl

theorem ofLine_eq_singleton {text : List Char} (hne : text ≠ [])
    (hblank : ∀ c ∈ text, Text.isBlank c = false) (hquote : '"' ∉ text)
    (hbrace : ∀ c ∈ ['{', '}', '[', ']'], c ∉ text)
    (hbar : ∀ before after, text = before ++ '|' :: after →
      before.getLast?.any joinsBar = true ∨ after.head?.any joinsBar = true) :
    ofLine text = [⟨String.ofList text, false⟩] := by
  have hbars : spaceBars none text = text := @spaceBars_eq_self [] text hbar
  rw [ofLine, pieces_of_no_quote hquote, ofPieces, ofBare, flatMap_spaceBrace_eq_self hbrace, hbars,
    Text.words_of_forall_not_blank hne hblank]
  rfl

end Token

theorem toList_ofName (name : String) :
    (Token.ofName name).text.toList = '<' :: name.toList ++ ['>'] := by
  show ("<" ++ name ++ ">").toList = _
  simp

theorem Token.text_ofName_inj :
    (Token.ofName name).text = (Token.ofName other).text ↔ name = other := by
  rw [← String.toList_inj, toList_ofName, toList_ofName]
  simp [String.toList_inj]

theorem Token.ofName_injective : Function.Injective Token.ofName :=
  fun _ _ h => text_ofName_inj.mp (congrArg Token.text h)

theorem Token.text_ofName_ne {op : String} (h : op.toList.head? ≠ some '<') :
    (Token.ofName name).text ≠ op := by
  rintro rfl
  refine h ?_
  rw [toList_ofName]
  rfl

theorem mem_toList_ofName {c : Char} :
    c ∈ (Token.ofName name).text.toList ↔ c = '<' ∨ c ∈ name.toList ∨ c = '>' := by
  simp [toList_ofName]

theorem Writable.lexes (h : Writable name) :
    Token.Lexes (Token.ofName name).text.toList [.ofName name] where
  no_break := by
    intro c hc
    rcases mem_toList_ofName.mp hc with rfl | hc | rfl
    · decide
    · exact Text.isLineBreak_of_isBlank_eq_false (h.no_blank c hc)
    · decide
  even := by
    rw [List.count_eq_zero_of_not_mem]
    rw [mem_toList_ofName]
    simp [h.no_quote]
  head := by
    rw [toList_ofName]
    simp
  last := by
    rw [toList_ofName, List.getLast?_append]
    simp
  ofLine_eq := by
    rw [Token.ofLine_eq_singleton, String.ofList_toList]
    · rfl
    · simp [toList_ofName]
    · intro c hc
      rcases mem_toList_ofName.mp hc with rfl | hc | rfl
      · decide
      · exact h.no_blank c hc
      · decide
    · simp [mem_toList_ofName, h.no_quote]
    · intro c hc
      have hb := h.no_brace c hc
      rw [mem_toList_ofName]
      rintro (rfl | hm | rfl)
      · simp at hc
      · exact hb hm
      · simp at hc
    · rw [toList_ofName]
      exact h.bars_joined

theorem Item.WellFormed.lexes {item : Item} (h : item.WellFormed) :
    Token.Lexes item.render.toList [item.token] := by
  cases item with
  | literal text =>
    have hl := Token.lexes_quoted h.1 h.2
    have hr : (Item.literal text).render.toList = '"' :: text.toList ++ ['"'] := by
      show ("\"" ++ text ++ "\"").toList = _
      simp
    rw [hr]
    simpa [Item.token] using hl
  | reference name => exact Writable.lexes h

-- ---------------------------------------------------------------------------
-- Right-hand sides
-- ---------------------------------------------------------------------------

theorem lexes_intercalate {α : Type} {render : α → String} {tokens : α → List Token} {xs : List α}
    (h : ∀ x ∈ xs, Token.Lexes (render x).toList (tokens x)) :
    Token.Lexes (" ".intercalate (xs.map render)).toList (xs.flatMap tokens) := by
  induction xs with
  | nil => exact Token.lexes_nil
  | cons x rest ih =>
    have hx := h x (.head _)
    cases rest with
    | nil => simpa using hx
    | cons next rest =>
      have hr : (" ".intercalate ((x :: next :: rest).map render)).toList =
          (render x).toList ++ ' ' :: (" ".intercalate ((next :: rest).map render)).toList := by
        simp
      rw [hr]
      exact hx.space (ih fun y hy => h y (.tail _ hy))

theorem lexes_renderItems (h : ∀ item ∈ items, Item.WellFormed item) :
    Token.Lexes (Segment.renderItems items).toList (items.map Item.token) := by
  rw [List.map_eq_flatMap]
  exact lexes_intercalate fun item hi => (h item hi).lexes

theorem Segment.WellFormed.lexes {part : Segment} (h : part.WellFormed) :
    Token.Lexes part.render.toList part.tokens := by
  cases part with
  | run items => exact lexes_renderItems h.2
  | group items quantifier =>
    have hopen : Token.Lexes ['{'] [⟨"\x7b", false⟩] :=
      ⟨by simp; decide, rfl, by simp, by simp, by decide⟩
    have hclose : Token.Lexes ('}' :: quantifier.render.toList)
        [⟨"\x7d", false⟩, ⟨quantifier.render, false⟩] := by
      cases quantifier <;>
        exact ⟨by simp [Quantifier.render]; decide, rfl, by simp, by decide, by decide⟩
    have hr : (Segment.group items quantifier).render.toList =
        ['{'] ++ ' ' :: ((renderItems items).toList ++ ' ' :: '}' :: quantifier.render.toList) := by
      simp [render]
    rw [hr]
    exact hopen.space ((lexes_renderItems h.2).space hclose)

theorem Item.render_ne_empty (item : Item) : item.render ≠ "" := by
  cases item with
  | literal text =>
    show "\"" ++ text ++ "\"" ≠ ""
    simp
  | reference name =>
    show "<" ++ name ++ ">" ≠ ""
    simp

theorem Segment.WellFormed.render_ne_empty {part : Segment} (h : part.WellFormed) :
    part.render ≠ "" := by
  cases part with
  | run items =>
    cases items with
    | nil => exact absurd rfl (h.1 rfl)
    | cons item rest =>
      have hi := item.render_ne_empty
      cases rest <;> simp [render, renderItems, hi]
  | group items quantifier => simp [render]

theorem Node.render_sequence {parts : List Segment} (h : (sequence parts).WellFormed) :
    (sequence parts).render = " ".intercalate (parts.map Segment.render) := by
  have hf : (parts.map Segment.render).filter (fun s => !s.isEmpty) = parts.map Segment.render := by
    refine List.filter_eq_self.mpr fun s hs => ?_
    obtain ⟨part, hm, rfl⟩ := List.mem_map.mp hs
    simpa using (h.2.1 part hm).render_ne_empty
  rw [render, hf]

theorem Node.WellFormed.lexes {node : Node} (h : node.WellFormed) :
    Token.Lexes node.render.toList node.tokens := by
  induction node with
  | alternation left right ihl ihr =>
    obtain ⟨hl, -, hr⟩ := h
    have ht : (alternation left right).render.toList =
        left.render.toList ++ ' ' :: '|' :: ' ' :: right.render.toList := by
      simp [render]
    rw [ht]
    exact (ihl hl).bar (ihr hr)
  | sequence parts =>
    rw [render_sequence h]
    exact lexes_intercalate fun part hm => (h.2.1 part hm).lexes

theorem toList_definitionLine (name : String) (node : Node) :
    (definitionLine name node).toList =
      (Token.ofName name).text.toList ++ ' ' :: ([':', ':', '='] ++ ' ' :: node.render.toList) := by
  rw [toList_ofName]
  show ("<" ++ name ++ "> ::= " ++ node.render).toList = _
  simp

theorem lexes_definitionLine {node : Node} (hname : Writable name) (hnode : node.WellFormed) :
    Token.Lexes (definitionLine name node).toList
      (.ofName name :: ⟨Token.define, false⟩ :: node.tokens) := by
  have hdefine : Token.Lexes [':', ':', '='] [⟨Token.define, false⟩] :=
    ⟨by simp; decide, rfl, by simp, by decide, by decide⟩
  rw [toList_definitionLine]
  exact hname.lexes.space (hdefine.space hnode.lexes)

end BackusNaur

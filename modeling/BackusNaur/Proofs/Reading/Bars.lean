import BackusNaur.Proofs.Reading.Blanks
import BackusNaur.Proofs.Reading.Rows
import Mathlib.Algebra.Ring.Nat
import Mathlib.Data.List.Induction

/-!
# Bars

A right-hand side has a bar between each two of its alternatives and no others, and no two bars are
next to each other. So the definitions that a text is read as tell how many bars its rows of tokens
have (`Definition.countP_isBar_rows`).

A bar at the end of a line, or at the start of one, that would be set apart with a space beside it
is lost without it (`Token.losesBar_ofLine`).
-/

namespace BackusNaur

-- ---------------------------------------------------------------------------
-- The first and the last word
-- ---------------------------------------------------------------------------

namespace Text

theorem exists_words_append {e : Char} (he : isBlank e = false) (x : List Char) :
    ∃ front word, ∀ z, (∀ c ∈ z, isBlank c = false) →
      words (x ++ e :: z) = front ++ [word ++ e :: z] := by
  induction x using List.reverseRecOn generalizing e with
  | nil =>
    exact ⟨[], [], fun z hz =>
      words_of_forall_not_blank (by simp) (List.forall_mem_cons.mpr ⟨he, hz⟩)⟩
  | append_singleton x d ih =>
    cases hd : isBlank d with
    | true =>
      refine ⟨words x, [], fun z hz => ?_⟩
      rw [List.append_assoc, List.singleton_append, words_append_cons hd,
        words_of_forall_not_blank (by simp) (List.forall_mem_cons.mpr ⟨he, hz⟩)]
      rfl
    | false =>
      obtain ⟨front, word, hword⟩ := ih hd
      refine ⟨front, word ++ [d], fun z hz => ?_⟩
      rw [List.append_assoc, List.singleton_append,
        hword (e :: z) (List.forall_mem_cons.mpr ⟨he, hz⟩), List.append_assoc]
      rfl

theorem exists_words_cons {e : Char} (he : isBlank e = false) (x : List Char) :
    ∃ word others, words (e :: x) = (e :: word) :: others := by
  cases x with
  | nil => exact ⟨[], [], words_singleton he⟩
  | cons d x =>
    cases hd : isBlank d with
    | true => exact ⟨[], words x, words_cons_cons_of_blank he hd x⟩
    | false =>
      obtain ⟨word, others, hword⟩ := List.exists_cons_of_ne_nil (words_cons_ne_nil hd x)
      exact ⟨word, others, words_cons_of_words_eq he hd hword⟩

end Text

-- ---------------------------------------------------------------------------
-- Bars that are lost
-- ---------------------------------------------------------------------------

namespace Token

/-- `ts` has fewer bars than `us`, or two bars of `us` are next to each other. -/
def LosesBar (ts us : List Token) : Prop :=
  ts.countP Node.isBar < us.countP Node.isBar ∨ [⟨"|", false⟩, ⟨"|", false⟩] <:+: us

variable {ts us : List Token} {x y : List Char} {c : Char}

theorem LosesBar.append_left (h : LosesBar ts us) (front : List Token) :
    LosesBar (front ++ ts) (front ++ us) := by
  refine h.imp (fun hlt => ?_) fun hbars => hbars.trans (List.suffix_append ..).isInfix
  rw [List.countP_append, List.countP_append]
  omega

theorem LosesBar.append_right (h : LosesBar ts us) (back : List Token) :
    LosesBar (ts ++ back) (us ++ back) := by
  refine h.imp (fun hlt => ?_) fun hbars => hbars.trans (List.prefix_append ..).isInfix
  rw [List.countP_append, List.countP_append]
  omega

theorem LosesBar.append {ts' us' : List Token} (h : LosesBar ts us) (h' : LosesBar ts' us') :
    LosesBar (ts ++ ts') (us ++ us') := by
  rcases h with hlt | hbars
  · rcases h' with hlt' | hbars'
    · left
      rw [List.countP_append, List.countP_append]
      omega
    · exact .inr (hbars'.trans (List.suffix_append ..).isInfix)
  · exact .inr (hbars.trans (List.prefix_append ..).isInfix)

theorem isBar_word (word : List Char) :
    Node.isBar ⟨String.ofList word, false⟩ = (word == ['|']) := by
  rw [Bool.eq_iff_iff, Node.isBar, isOperator_iff, beq_iff_eq, Token.mk.injEq]
  exact ⟨fun h => String.ofList_injective h.1, fun h => ⟨congrArg String.ofList h, rfl⟩⟩

/-- A bar is lost in a longer word. -/
theorem losesBar_of_mem {word : List Char} (hword : word ≠ ['|']) (hbar : ⟨"|", false⟩ ∈ us) :
    LosesBar [⟨String.ofList word, false⟩] us := by
  have hzero : Node.isBar ⟨String.ofList word, false⟩ = false := by simpa [isBar_word] using hword
  have hpos : 0 < us.countP Node.isBar := List.countP_pos_iff.mpr ⟨_, hbar, by decide⟩
  left
  rwa [List.countP_singleton, hzero]

theorem exists_spaceBars_bar (hfrees : freesBar c = true) (hblank : Text.isBlank c = false)
    (x : List Char) : ∃ front, (∀ y, spaceBars none (x ++ c :: '|' :: y) =
        front ++ spaceBars (some c) ('|' :: y)) ∧
      ((∃ before e, front = before ++ [e] ∧ Text.isBlank e = false) ∨
        ∃ before, front = before ++ [' ', '|', ' ']) := by
  obtain ⟨front, hfront⟩ := exists_spaceBars_append true none x
  have hstep : ∀ y, spaceBars none (x ++ c :: '|' :: y) = front ++
      ((if c == '|' && (x.getLast?.or none).any freesBar then [' ', '|', ' '] else [c]) ++
        spaceBars (some c) ('|' :: y)) := by
    intro y
    rw [hfront c _ hfrees, spaceBars]
    simp [freesBar]
  by_cases hbar : (c == '|' && (x.getLast?.or none).any freesBar) = true
  · refine ⟨front ++ [' ', '|', ' '], fun y => ?_, .inr ⟨front, rfl⟩⟩
    rw [hstep, if_pos hbar, List.append_assoc]
  · refine ⟨front ++ [c], fun y => ?_, .inl ⟨front, c, rfl, hblank⟩⟩
    rw [hstep, if_neg hbar, List.append_assoc]

theorem losesBar_ofBare_concat_blank (hc : holdsBar c = true) (p : List Char) :
    LosesBar (ofBare (p ++ [c, '|'])) (ofBare (p ++ [c, '|'] ++ [' '])) := by
  obtain ⟨⟨hfrees, hblank⟩, hone⟩ : (freesBar c = true ∧ Text.isBlank c = false) ∧
    spaceBrace c = [c] := by simpa [holdsBar] using hc
  have hspace : Text.isBlank ' ' = true := rfl
  have hbrace : ∀ y, (p ++ c :: '|' :: y).flatMap spaceBrace =
      p.flatMap spaceBrace ++ c :: '|' :: y.flatMap spaceBrace := by
    intro y
    rw [List.flatMap_append, List.flatMap_cons, hone]
    rfl
  obtain ⟨front, hfront, hend⟩ := exists_spaceBars_bar hfrees hblank (p.flatMap spaceBrace)
  have hlone : ofBare (p ++ [c, '|']) =
      (Text.words (front ++ ['|'])).map fun word => ⟨String.ofList word, false⟩ := by
    rw [ofBare, hbrace, hfront]
    simp [spaceBars]
  have hbehind : ofBare (p ++ [c, '|'] ++ [' ']) =
      (Text.words front).map (fun word => ⟨String.ofList word, false⟩) ++ [⟨"|", false⟩] := by
    have hspaced : spaceBars (some c) ('|' :: [' '].flatMap spaceBrace) = [' ', '|', ' ', ' '] := by
      simp [spaceBars, spaceBrace, hfrees, freesBar_of_isBlank hspace]
    rw [List.append_assoc]
    show ofBare (p ++ c :: '|' :: [' ']) = _
    rw [ofBare, hbrace, hfront, hspaced, Text.words_append_cons hspace, List.map_append]
    rfl
  rw [hlone, hbehind]
  rcases hend with ⟨before, e, rfl, he⟩ | ⟨before, rfl⟩
  · -- Without the space the bar is the end of the word before it.
    obtain ⟨others, word, hwords⟩ := Text.exists_words_append he before
    have hbar : ∀ d ∈ ['|'], Text.isBlank d = false := List.forall_mem_singleton.mpr rfl
    rw [List.append_assoc, List.singleton_append, hwords ['|'] hbar,
      hwords [] (List.forall_mem_nil _), List.map_append, List.map_append, List.append_assoc]
    have hlong : word ++ e :: ['|'] ≠ ['|'] := fun h => by simpa using congrArg List.length h
    exact (losesBar_of_mem hlong (by simp)).append_left _
  · -- The word before it is a bar too.
    right
    have hwords : Text.words (before ++ [' ', '|', ' ']) = Text.words before ++ [['|']] :=
      Text.words_append_cons hspace before ['|', ' ']
    rw [hwords, List.map_append, List.append_assoc]
    exact (List.suffix_append ..).isInfix

theorem losesBar_ofBare_cons_blank (hc : holdsBar c = true) (q : List Char) :
    LosesBar (ofBare ('|' :: c :: q)) (ofBare (' ' :: '|' :: c :: q)) := by
  obtain ⟨⟨hfrees, hblank⟩, hone⟩ : (freesBar c = true ∧ Text.isBlank c = false) ∧
    spaceBrace c = [c] := by simpa [holdsBar] using hc
  have hspace : Text.isBlank ' ' = true := rfl
  have hbar : Text.isBlank '|' = false := rfl
  have hlone : ofBare ('|' :: c :: q) =
      (Text.words ('|' :: spaceBars (some '|') (c :: q.flatMap spaceBrace))).map
        fun word => ⟨String.ofList word, false⟩ := by
    rw [ofBare, List.flatMap_cons, List.flatMap_cons, hone]
    rfl
  have hbefore : ofBare (' ' :: '|' :: c :: q) = ⟨"|", false⟩ ::
      (Text.words (spaceBars (some '|') (c :: q.flatMap spaceBrace))).map
        fun word => ⟨String.ofList word, false⟩ := by
    have hspaced : (' ' :: '|' :: c :: q).flatMap spaceBrace =
        ' ' :: '|' :: c :: q.flatMap spaceBrace := by
      rw [List.flatMap_cons, List.flatMap_cons, List.flatMap_cons, hone]
      rfl
    have hbars : spaceBars (some ' ') ('|' :: c :: q.flatMap spaceBrace) =
        [' ', '|', ' '] ++ spaceBars (some '|') (c :: q.flatMap spaceBrace) := by
      rw [spaceBars]
      simp [hfrees, freesBar_of_isBlank hspace]
    rw [ofBare, hspaced, spaceBars_cons_of_blank hspace, Text.words_cons_of_blank hspace, hbars]
    show List.map _ (Text.words ([' ', '|'] ++ ' ' :: _)) = _
    rw [Text.words_append_cons hspace, List.map_append]
    rfl
  rw [hlone, hbefore]
  have hstep : spaceBars (some '|') (c :: q.flatMap spaceBrace) =
      (if c == '|' && (q.flatMap spaceBrace).head?.any freesBar then [' ', '|', ' '] else [c]) ++
        spaceBars (some c) (q.flatMap spaceBrace) := by
    rw [spaceBars]
    simp [freesBar]
  by_cases hspaced : (c == '|' && (q.flatMap spaceBrace).head?.any freesBar) = true
  · -- The word after it is a bar too.
    right
    rw [hstep, if_pos hspaced]
    show _ <:+: _ :: List.map _ (Text.words ([' ', '|'] ++ ' ' :: _))
    rw [Text.words_append_cons hspace, List.map_append]
    exact (List.prefix_append ..).isInfix
  · -- Without the space the bar is the start of the word after it.
    obtain ⟨word, others, hwords⟩ :=
      Text.exists_words_cons hblank (spaceBars (some c) (q.flatMap spaceBrace))
    rw [hstep, if_neg hspaced, List.singleton_append,
      Text.words_cons_of_words_eq hbar hblank hwords, hwords, List.map_cons, List.map_cons]
    have hlong : '|' :: c :: word ≠ ['|'] := by simp
    have hmem : ⟨"|", false⟩ ∈ [(⟨"|", false⟩ : Token), ⟨String.ofList (c :: word), false⟩] :=
      .head _
    exact (losesBar_of_mem hlong hmem).append_right _

variable {a b : List Char}

theorem losesBar_ofLine_concat_blank (he : a.count '"' % 2 = 0) (ha : EndsInBar a) :
    LosesBar (ofLine a) (ofLine (a ++ [' '])) := by
  obtain ⟨front, c, rfl, hc⟩ := ha
  have hquote : '"' ≠ c := by
    rintro rfl
    exact absurd hc (by decide)
  have hfront : front.count '"' % 2 = 0 := by
    rwa [List.count_append, List.count_cons_of_ne hquote.symm, List.count_singleton,
      if_neg (by decide)] at he
  obtain ⟨ts, p, -, hp, hline⟩ := exists_ofLine_append hfront
  rw [List.append_assoc, hline, hline, ← List.append_assoc,
    ofLine_of_no_quote (by simp [hp, hquote]), ofLine_of_no_quote (by simp [hp, hquote])]
  exact (losesBar_ofBare_concat_blank hc p).append_left ts

theorem losesBar_ofLine_cons_blank (hb : BeginsWithBar b) :
    LosesBar (ofLine b) (ofLine (' ' :: b)) := by
  obtain ⟨c, rest, rfl, hc⟩ := hb
  have hquote : '"' ≠ c := by
    rintro rfl
    exact absurd hc (by decide)
  obtain ⟨q, us, -, hline⟩ := exists_append_ofLine rest
  have hlone := hline ['|', c] (by simp [hquote])
  have hspace := hline [' ', '|', c] (by simp [hquote])
  show LosesBar (ofLine (['|', c] ++ rest)) (ofLine ([' ', '|', c] ++ rest))
  rw [hlone, hspace]
  exact (losesBar_ofBare_cons_blank hc q).append_right us

theorem losesBar_ofLine (he : a.count '"' % 2 = 0) (hbar : EndsInBar a ∨ BeginsWithBar b) :
    LosesBar (ofLine a ++ ofLine b) (ofLine (a ++ [' ']) ++ ofLine (' ' :: b)) := by
  by_cases ha : EndsInBar a
  · by_cases hb : BeginsWithBar b
    · exact (losesBar_ofLine_concat_blank he ha).append (losesBar_ofLine_cons_blank hb)
    · rw [ofLine_cons_blank hb]
      exact (losesBar_ofLine_concat_blank he ha).append_right _
  · rw [ofLine_concat_blank he ha]
    exact (losesBar_ofLine_cons_blank (hbar.resolve_left ha)).append_left _

end Token

-- ---------------------------------------------------------------------------
-- The bars of right-hand sides
-- ---------------------------------------------------------------------------

namespace Node

def alternatives : Node → Nat
  | alternation left right => left.alternatives + right.alternatives
  | sequence _ => 1

theorem WrittenAlternative.alternatives {ts : List Token} {node : Node}
    (h : WrittenAlternative ts node) : node.alternatives = 1 := by
  cases h
  rfl

theorem alternatives_foldl {others : List Node} (h : ∀ node ∈ others, node.alternatives = 1)
    (first : Node) :
    (others.foldl alternation first).alternatives = first.alternatives + others.length := by
  induction others generalizing first with
  | nil => rfl
  | cons node others ih =>
    obtain ⟨hnode, hothers⟩ := List.forall_mem_cons.mp h
    rw [List.foldl_cons, ih hothers, alternatives, hnode, List.length_cons]
    omega

variable {ts : List Token} {node : Node}

theorem Written.countP_isBar (h : Written ts node) : ts.countP isBar + 1 = node.alternatives := by
  obtain ⟨first, others, hparts, rfl⟩ := h
  have hone : ∀ node ∈ first :: others, node.alternatives = 1 := by
    intro node hnode
    have hflip : List.Forall₂ (flip WrittenAlternative) (first :: others) (pieces isBar ts) :=
      .flip hparts
    obtain ⟨part, hpart⟩ := exists_forall₂_iff.mp ⟨_, hflip⟩ node hnode
    exact WrittenAlternative.alternatives hpart
  obtain ⟨hfirst, hothers⟩ := List.forall_mem_cons.mp hone
  rw [← length_pieces, hparts.length_eq, alternatives_foldl hothers, hfirst, List.length_cons]
  omega

theorem Written.not_adjacent (h : Written ts node) :
    ¬ [⟨"|", false⟩, ⟨"|", false⟩] <:+: ts := by
  rintro ⟨front, back, rfl⟩
  obtain ⟨first, others, hparts, -⟩ := h
  have hempty : [] ∈ pieces isBar (front ++ [⟨"|", false⟩, ⟨"|", false⟩] ++ back) := by
    rw [List.append_assoc]
    show [] ∈ pieces isBar (front ++ ⟨"|", false⟩ :: ([] ++ ⟨"|", false⟩ :: back))
    rw [pieces_append_cons rfl, pieces_append_cons rfl]
    simp [pieces]
  obtain ⟨_, hne, -⟩ := exists_forall₂_iff.mp ⟨_, hparts⟩ [] hempty
  exact hne rfl

end Node

theorem Token.isBar_ofName (name : String) : Node.isBar (.ofName name) = false := by
  rw [Bool.eq_false_iff, ne_eq, Node.isBar, isOperator_iff]
  intro h
  exact text_ofName_ne (by decide) (congrArg Token.text h)

namespace Block

variable {lines : List Line} {blocks : List Block} {ds : List Definition}

theorem Written.isBar_head {b : Block} {d : Definition} (h : b.Written d) :
    Node.isBar b.head = false := by
  rw [h.head]
  exact Token.isBar_ofName d.name

/-- The bars of lines are those of the right-hand sides that they write. -/
theorem Cut.countP_isBar (hcut : Cut lines blocks) (hw : List.Forall₂ Written blocks ds) :
    (lines.flatMap Line.tokens).countP Node.isBar + ds.length =
      (ds.map fun d => d.node.alternatives).sum := by
  induction hcut generalizing ds with
  | none =>
    cases hw
    rfl
  | block hline hmore _ ih =>
    rcases hw with _ | ⟨hb, hw⟩
    rename_i d ds
    have hhead := hb.isBar_head
    have hdefine : Node.isBar ⟨Token.define, false⟩ = false := by decide
    have hbody := hb.node.countP_isBar
    have hrest := ih hw
    simp only [List.cons_append, List.flatMap_cons, List.flatMap_append, hline, List.countP_append,
      List.countP_cons, hhead, hdefine, List.map_cons, List.sum_cons, List.length_cons]
      at hhead hbody ⊢
    simp only [Bool.false_eq_true, ↓reduceIte]
    omega

theorem Cut.not_adjacent (hcut : Cut lines blocks) (hw : List.Forall₂ Written blocks ds) :
    ∀ line ∈ lines, ¬ [⟨"|", false⟩, ⟨"|", false⟩] <:+: line.tokens := by
  induction hcut generalizing ds with
  | none => nofun
  | @block line more rest head body blocks hline hmore _ ih =>
    rcases hw with _ | ⟨hb, hw⟩
    have hbody := hb.node.not_adjacent
    refine List.forall_mem_append.mpr ⟨List.forall_mem_cons.mpr ⟨fun h => hbody ?_, ?_⟩, ih hw⟩
    · rw [hline, List.infix_cons_iff, List.infix_cons_iff] at h
      rcases h with h | h | h
      · have hhead : head = ⟨"|", false⟩ := ((List.cons_prefix_cons.mp h).1).symm
        have hname := hb.isBar_head
        dsimp only at hname
        rw [hhead] at hname
        exact absurd hname (by decide)
      · exact absurd (List.cons_prefix_cons.mp h).1 (by decide)
      · exact h.trans (List.prefix_append ..).isInfix
    · intro l hl h
      have hmem : l.tokens <:+: more.flatMap Line.tokens := by
        rw [List.flatMap_def]
        exact List.infix_of_mem_flatten (List.mem_map_of_mem hl)
      exact hbody (h.trans (hmem.trans (List.suffix_append ..).isInfix))

end Block

namespace Definition

variable {text : String} {ds : List Definition}

theorem countP_isBar_rows (h : readAll text = .ok ds) :
    (Line.rows text.toList).flatten.countP Node.isBar + ds.length =
      (ds.map fun d => d.node.alternatives).sum := by
  obtain ⟨-, blocks, hcut, -, hw⟩ := Reading.result_ofLines_eq_ok_iff.mp h
  rw [← Line.map_tokens_ofText, ← List.flatMap_def]
  exact hcut.countP_isBar hw

theorem countP_isBar_congr {text' : String} {es : List Definition} (h : readAll text = .ok ds)
    (h' : readAll text' = .ok es) (hcontent : es.map content = ds.map content) :
    (Line.rows text'.toList).flatten.countP Node.isBar =
      (Line.rows text.toList).flatten.countP Node.isBar := by
  have hcount := countP_isBar_rows h
  have hcount' := countP_isBar_rows h'
  have hlength : es.length = ds.length := by simpa using congrArg List.length hcontent
  have hsum := congrArg (fun cs => (cs.map fun c => c.2.alternatives).sum) hcontent
  simp only [List.map_map] at hsum
  change (es.map fun d => d.node.alternatives).sum = (ds.map fun d => d.node.alternatives).sum
    at hsum
  omega

theorem not_adjacent_of_mem_rows (h : readAll text = .ok ds) :
    ∀ row ∈ Line.rows text.toList, ¬ [⟨"|", false⟩, ⟨"|", false⟩] <:+: row := by
  obtain ⟨-, blocks, hcut, -, hw⟩ := Reading.result_ofLines_eq_ok_iff.mp h
  rw [← Line.map_tokens_ofText, List.forall_mem_map]
  exact hcut.not_adjacent hw

end Definition

end BackusNaur

import BackusNaur.Proofs.Reading.Lexing
import Mathlib.Data.List.Basic
import Mathlib.Data.List.TakeWhile

/-!
# Blanks

White space at the ends of a line is trimmed, and white space outside quotes separates words. How
much of it there is, and of which kind, is all the same: `Token.ofLine_append_blanks` reads a line
with white space in it as two lines, with a space at the end of the one and at the start of the
other.

These spaces matter to bars. A bar is set apart from an operator next to it only if it has a
neighbour on its other side, so without the space a bar at the end of a line, or at the start of
one, can be part of the word beside it. `Token.EndsInBar` and `Token.BeginsWithBar` say where.
-/

namespace BackusNaur

-- ---------------------------------------------------------------------------
-- Blanks around text
-- ---------------------------------------------------------------------------

namespace Text

variable {u v : List Char} {w : Char}

theorem trim_of_blanks {left core right : List Char} (hl : ∀ c ∈ left, isBlank c = true)
    (hr : ∀ c ∈ right, isBlank c = true) (hh : ∀ c, core.head? = some c → isBlank c = false)
    (hlast : ∀ c, core.getLast? = some c → isBlank c = false) :
    trim (left ++ core ++ right) = core := by
  cases hcore : core with
  | nil =>
    have hall : ∀ c ∈ left ++ right, isBlank c = true := List.forall_mem_append.mpr ⟨hl, hr⟩
    rw [List.append_nil, trim, trimStart, List.dropWhile_eq_nil_iff.mpr hall]
    rfl
  | cons c rest =>
    have hstart : trimStart (left ++ core ++ right) = core ++ right := by
      rw [trimStart, List.append_assoc, List.dropWhile_append_of_pos hl, ← trimStart]
      refine trimStart_eq_self fun d hd => hh d ?_
      rw [hcore] at hd ⊢
      exact hd
    have hend : trimEnd (core ++ right) = core := by
      have hr' : ∀ d ∈ right.reverse, isBlank d = true := fun d hd => hr d (List.mem_reverse.mp hd)
      rw [trimEnd, List.reverse_append, List.dropWhile_append_of_pos hr', ← trimStart,
        trimStart_eq_self, List.reverse_reverse]
      intro d hd
      exact hlast d (by rwa [List.head?_reverse] at hd)
    rw [← hcore, trim, hstart, hend]

theorem exists_trim (text : List Char) : ∃ left right, text = left ++ trim text ++ right ∧
    (∀ c ∈ left, isBlank c = true) ∧ (∀ c ∈ right, isBlank c = true) ∧
    (∀ c, (trim text).head? = some c → isBlank c = false) ∧
    ∀ c, (trim text).getLast? = some c → isBlank c = false := by
  have hstart : text = text.takeWhile isBlank ++ trimStart text :=
    List.takeWhile_append_dropWhile.symm
  have hend : trimStart text =
      trim text ++ ((trimStart text).reverse.takeWhile isBlank).reverse := by
    rw [trim, trimEnd, ← List.reverse_append, List.takeWhile_append_dropWhile, List.reverse_reverse]
  refine ⟨text.takeWhile isBlank, ((trimStart text).reverse.takeWhile isBlank).reverse, ?_,
    fun c hc => List.mem_takeWhile_imp hc, fun c hc => ?_, fun c hc => ?_, fun c hc => ?_⟩
  · rw [List.append_assoc, ← hend]
    exact hstart
  · exact List.mem_takeWhile_imp (List.mem_reverse.mp hc)
  · have hhead := List.head?_dropWhile_not isBlank text
    rw [← trimStart, hend, List.head?_append, hc] at hhead
    exact hhead
  · rw [trim, trimEnd, List.getLast?_reverse] at hc
    have hhead := List.head?_dropWhile_not isBlank (trimStart text).reverse
    rw [hc] at hhead
    exact hhead

theorem exists_trim_append_cons (hw : isBlank w = true) (u v : List Char) :
    ∃ sep, sep ≠ [] ∧ (∀ c ∈ sep, isBlank c = true) ∧
      (trim u ≠ [] → trim v ≠ [] → trim (u ++ w :: v) = trim u ++ sep ++ trim v) := by
  obtain ⟨left, right, hu, hl, hr, hhead, -⟩ := exists_trim u
  obtain ⟨left', right', hv, hl', hr', -, hlast⟩ := exists_trim v
  refine ⟨right ++ w :: left', by simp,
    List.forall_mem_append.mpr ⟨hr, List.forall_mem_cons.mpr ⟨hw, hl'⟩⟩, fun hune hvne => ?_⟩
  have htext : u ++ w :: v =
      left ++ (trim u ++ (right ++ w :: left') ++ trim v) ++ right' := by
    conv => lhs; rw [hu, hv]
    simp
  rw [htext]
  refine trim_of_blanks hl hr' (fun c hc => hhead c ?_) fun c hc => hlast c ?_
  · rwa [List.append_assoc, List.head?_append_of_ne_nil _ hune] at hc
  · rwa [List.getLast?_append_of_ne_nil _ hvne] at hc

theorem trim_append_cons_of_left (hw : isBlank w = true) (hu : trim u = []) :
    trim (u ++ w :: v) = trim v := by
  obtain ⟨left, right, huv, hl, hr, -, -⟩ := exists_trim u
  obtain ⟨left', right', hv, hl', hr', hhead, hlast⟩ := exists_trim v
  have htext : u ++ w :: v = left ++ right ++ w :: left' ++ trim v ++ right' := by
    conv => lhs; rw [huv, hv, hu]
    simp
  rw [htext]
  exact trim_of_blanks (List.forall_mem_append.mpr
    ⟨List.forall_mem_append.mpr ⟨hl, hr⟩, List.forall_mem_cons.mpr ⟨hw, hl'⟩⟩) hr' hhead hlast

theorem trim_append_cons_of_right (hw : isBlank w = true) (hv : trim v = []) :
    trim (u ++ w :: v) = trim u := by
  obtain ⟨left, right, hu, hl, hr, hhead, hlast⟩ := exists_trim u
  obtain ⟨left', right', hvu, hl', hr', -, -⟩ := exists_trim v
  have htext : u ++ w :: v = left ++ trim u ++ (right ++ w :: left' ++ right') := by
    conv => lhs; rw [hu, hvu, hv]
    simp
  rw [htext]
  exact trim_of_blanks hl (List.forall_mem_append.mpr
    ⟨List.forall_mem_append.mpr ⟨hr, List.forall_mem_cons.mpr ⟨hw, hl'⟩⟩, hr'⟩) hhead hlast

theorem count_trim {q : Char} (hq : isBlank q = false) (text : List Char) :
    (trim text).count q = text.count q := by
  obtain ⟨left, right, h, hl, hr, -, -⟩ := exists_trim text
  have hzero : ∀ cs : List Char, (∀ c ∈ cs, isBlank c = true) → cs.count q = 0 := fun cs hcs =>
    List.count_eq_zero_of_not_mem fun hm => by
      rw [hcs q hm] at hq
      cases hq
  conv => rhs; rw [h, List.count_append, List.count_append, hzero left hl, hzero right hr]
  simp

theorem even_count_trim {text : List Char} (h : text.count '"' % 2 = 0) :
    (trim text).count '"' % 2 = 0 := by
  rwa [count_trim (by decide)]

end Text

-- ---------------------------------------------------------------------------
-- Blanks in a line
-- ---------------------------------------------------------------------------

namespace Token

/-- Beside `c` a bar is set apart if white space is on its other side, but not if it is the first
or the last character of its line. -/
def holdsBar (c : Char) : Bool := freesBar c && !Text.isBlank c && spaceBrace c == [c]

def EndsInBar (line : List Char) : Prop := ∃ front c, line = front ++ [c, '|'] ∧ holdsBar c = true

def BeginsWithBar (line : List Char) : Prop := ∃ c rest, line = '|' :: c :: rest ∧ holdsBar c = true

theorem freesBar_of_isBlank {c : Char} (h : Text.isBlank c = true) : freesBar c = true := by
  simp only [Text.isBlank, Bool.or_eq_true, Bool.and_eq_true, decide_eq_true_eq,
    beq_iff_eq] at h
  have hne : ∀ d : Char, d.toNat ∈ [95, 34, 39, 60, 62] → c ≠ d := by
    rintro d hd rfl
    simp only [List.mem_cons, List.not_mem_nil, or_false] at hd
    omega
  have hal : c.isAlphanum = false := by
    have hval : c.toNat = c.val.toNat := rfl
    change (decide ('A'.val ≤ c.val ∧ c.val ≤ 'Z'.val) ||
      (decide ('a'.val ≤ c.val) && decide (c.val ≤ 'z'.val)) ||
      (decide ('0'.val ≤ c.val) && decide (c.val ≤ '9'.val))) = false
    simp only [Bool.or_eq_false_iff, Bool.and_eq_false_iff, decide_eq_false_iff_not,
      UInt32.le_iff_toNat_le, Char.reduceVal, UInt32.reduceToNat]
    omega
  simp [freesBar, hal, hne]

theorem spaceBrace_of_isBlank {c : Char} (h : Text.isBlank c = true) : spaceBrace c = [c] := by
  unfold spaceBrace
  split
  all_goals first | rfl | exact absurd h (by decide)

variable {x y sep : List Char} {c s : Char}

theorem getLast?_cons_or (c : Char) (x : List Char) (before : Option Char) :
    (c :: x).getLast?.or before = x.getLast?.or (some c) := by
  cases x <;> simp [List.getLast?_cons]

theorem exists_spaceBars_append (frees : Bool) (before : Option Char) (x : List Char) :
    ∃ front, ∀ c y, freesBar c = frees →
      spaceBars before (x ++ c :: y) = front ++ spaceBars (x.getLast?.or before) (c :: y) := by
  induction x generalizing before with
  | nil => exact ⟨[], fun c y _ => rfl⟩
  | cons d x ih =>
    obtain ⟨front, hfront⟩ := ih (some d)
    refine ⟨(if d == '|' && before.any freesBar && (x.head?.map freesBar).getD frees then
      [' ', '|', ' '] else [d]) ++ front, fun c y hc => ?_⟩
    have hhead : (x ++ c :: y).head?.any freesBar = (x.head?.map freesBar).getD frees := by
      cases x <;> simp [hc]
    rw [List.cons_append, spaceBars, hfront c y hc, hhead, getLast?_cons_or, List.append_assoc]

theorem isBlank_ne_bar (hs : Text.isBlank s = true) : s ≠ '|' := by
  rintro rfl
  cases hs

theorem spaceBars_cons_of_blank (hs : Text.isBlank s = true) (before : Option Char)
    (y : List Char) : spaceBars before (s :: y) = s :: spaceBars (some ' ') y := by
  have hsome : spaceBars (some s) y = spaceBars (some ' ') y := by
    cases y with
    | nil => rfl
    | cons c y => simp [spaceBars, freesBar_of_isBlank hs, freesBar_of_isBlank (c := ' ') rfl]
  simp [spaceBars, isBlank_ne_bar hs, hsome]

/-- White space sets apart what is before it and what is after it, as white space at the end of the
one and at the start of the other would. -/
theorem words_spaceBars_append (hs : Text.isBlank s = true) (x y : List Char) :
    Text.words (spaceBars none (x ++ s :: y)) =
      Text.words (spaceBars none (x ++ [' '])) ++ Text.words (spaceBars none (' ' :: y)) := by
  obtain ⟨front, hfront⟩ := exists_spaceBars_append true none x
  have hspace : Text.isBlank ' ' = true := rfl
  rw [hfront s y (freesBar_of_isBlank hs), hfront ' ' [] (freesBar_of_isBlank hspace),
    spaceBars_cons_of_blank hs, spaceBars_cons_of_blank hspace, spaceBars_cons_of_blank hspace,
    Text.words_append_cons hs, Text.words_append_cons hspace, Text.words_cons_of_blank hspace]
  have hnil : Text.words (spaceBars (some ' ') []) = [] := rfl
  rw [hnil, List.append_nil]

theorem words_spaceBars_blanks (hsep : ∀ c ∈ sep, Text.isBlank c = true) (y : List Char) :
    Text.words (spaceBars none (' ' :: (sep ++ y))) = Text.words (spaceBars none (' ' :: y)) := by
  induction sep with
  | nil => rfl
  | cons c sep ih =>
    obtain ⟨hc, hsep⟩ := List.forall_mem_cons.mp hsep
    rw [← ih hsep]
    exact words_spaceBars_append hc [' '] (sep ++ y)

theorem words_spaced_bar (hs : Text.isBlank s = true) (rest : List Char) :
    Text.words (' ' :: '|' :: ' ' :: s :: rest) = Text.words ['|'] ++ Text.words rest := by
  rw [Text.words_cons_of_blank rfl, ← Text.words_cons_of_blank hs rest,
    ← Text.words_append_cons (by decide : Text.isBlank ' ' = true)]
  rfl

theorem words_concat_blank (x : List Char) : Text.words (x ++ [' ']) = Text.words x :=
  (Text.words_append_cons rfl x []).trans (List.append_nil _)

theorem words_bar_blank (hc : freesBar c = true → Text.isBlank c = true) (x : List Char) :
    Text.words (x ++ c :: spaceBars (some c) ['|', ' ']) =
      Text.words (x ++ c :: spaceBars (some c) ['|']) := by
  have hspace : Text.isBlank ' ' = true := rfl
  have hlone : spaceBars (some c) ['|'] = ['|'] := by simp [spaceBars]
  cases hfrees : freesBar c with
  | true =>
    have hspaced : spaceBars (some c) ['|', ' '] = [' ', '|', ' ', ' '] := by
      simp [spaceBars, hfrees, freesBar_of_isBlank hspace]
    rw [hspaced, hlone, Text.words_append_cons (hc hfrees), words_spaced_bar hspace,
      Text.words_append_cons (hc hfrees)]
    rfl
  | false =>
    have hplain : spaceBars (some c) ['|', ' '] = ['|'] ++ [' '] := by simp [spaceBars, hfrees]
    rw [hplain, hlone, ← List.cons_append, ← List.append_assoc, words_concat_blank]

theorem words_spaceBars_concat_blank (hx : ∀ front c, x = front ++ [c, '|'] → freesBar c = true →
    Text.isBlank c = true) :
    Text.words (spaceBars none (x ++ [' '])) = Text.words (spaceBars none x) := by
  by_cases hlast : x.getLast? = some '|'
  · obtain ⟨front, rfl⟩ := List.getLast?_eq_some_iff.mp hlast
    rcases List.eq_nil_or_concat front with rfl | ⟨front, c, rfl⟩
    · rfl
    rw [List.concat_eq_append] at hx ⊢
    have hblank := hx front c (List.append_assoc ..)
    -- A bar before this one would be set apart too, so there is none.
    have hc : c ≠ '|' := by
      rintro rfl
      exact absurd (hblank rfl) (by decide)
    obtain ⟨done, hdone⟩ := exists_spaceBars_append (freesBar c) none front
    have hstep : ∀ y, spaceBars none (front ++ [c] ++ y) = done ++ c :: spaceBars (some c) y := by
      intro y
      rw [List.append_assoc, List.singleton_append, hdone c y rfl]
      simp [spaceBars, hc]
    rw [List.append_assoc, hstep, hstep]
    exact words_bar_blank hblank done
  · rw [spaceBars_append_cons (by decide) hlast]
    exact words_concat_blank _

theorem words_spaceBars_cons_blank (hy : ∀ c rest, y = '|' :: c :: rest → freesBar c = true →
    Text.isBlank c = true) :
    Text.words (spaceBars none (' ' :: y)) = Text.words (spaceBars none y) := by
  have hspace : Text.isBlank ' ' = true := rfl
  rw [spaceBars_cons_of_blank hspace, Text.words_cons_of_blank hspace]
  by_cases hhead : y.head? = some '|'
  · obtain ⟨rest, rfl⟩ := List.head?_eq_some_iff.mp hhead
    cases rest with
    | nil => simp [spaceBars]
    | cons c rest =>
      cases hfrees : freesBar c with
      | true =>
        have hblank := hy c rest rfl hfrees
        have hc := isBlank_ne_bar hblank
        have hsome : spaceBars (some ' ') ('|' :: c :: rest) =
            ' ' :: '|' :: ' ' :: c :: spaceBars (some c) rest := by
          simp [spaceBars, hc, hfrees, freesBar_of_isBlank hspace]
        have hnone : spaceBars none ('|' :: c :: rest) = ['|'] ++ c :: spaceBars (some c) rest := by
          simp [spaceBars, hc]
        rw [hsome, hnone, words_spaced_bar hblank, Text.words_append_cons hblank]
      | false => simp [spaceBars, hfrees]
  · rw [spaceBars_of_head hhead]

theorem spaceBrace_eq_or (d : Char) :
    spaceBrace d = [d] ∨ ∃ inside, spaceBrace d = ' ' :: inside ++ [' '] := by
  unfold spaceBrace
  split
  · exact .inr ⟨['{'], rfl⟩
  · exact .inr ⟨['{'], rfl⟩
  · exact .inr ⟨['}'], rfl⟩
  · exact .inr ⟨['}', ' ', '?'], rfl⟩
  · exact .inl rfl

theorem getLast_of_flatMap_spaceBrace {p front : List Char} {c : Char}
    (h : p.flatMap spaceBrace = front ++ [c]) : c = ' ' ∨
      ∃ before, p = before ++ [c] ∧ before.flatMap spaceBrace = front ∧ spaceBrace c = [c] := by
  rcases List.eq_nil_or_concat p with rfl | ⟨before, d, rfl⟩
  · cases front <;> cases h
  · rw [List.concat_eq_append, List.flatMap_append, List.flatMap_singleton] at h
    rcases spaceBrace_eq_or d with hd | ⟨inside, hd⟩
    · rw [hd] at h
      obtain ⟨hfront, hlast⟩ := List.append_inj' h rfl
      obtain rfl : d = c := by simpa using hlast
      exact .inr ⟨before, List.concat_eq_append .., hfront, hd⟩
    · rw [hd, ← List.append_assoc] at h
      have hlast := (List.append_inj' h rfl).2
      exact .inl (by simpa using hlast.symm)

theorem head_of_flatMap_spaceBrace {q rest : List Char} {c : Char}
    (h : q.flatMap spaceBrace = c :: rest) : c = ' ' ∨
      ∃ after, q = c :: after ∧ after.flatMap spaceBrace = rest ∧ spaceBrace c = [c] := by
  cases q with
  | nil => cases h
  | cons d after =>
    rw [List.flatMap_cons] at h
    rcases spaceBrace_eq_or d with hd | ⟨inside, hd⟩
    · rw [hd] at h
      obtain ⟨rfl, hrest⟩ := List.cons.inj h
      exact .inr ⟨after, rfl, hrest, hd⟩
    · rw [hd] at h
      exact .inl (List.cons.inj h).1.symm

theorem isBlank_of_not_endsInBar {p front : List Char} (hp : ¬ EndsInBar p)
    (h : p.flatMap spaceBrace = front ++ [c, '|']) (hc : freesBar c = true) :
    Text.isBlank c = true := by
  rw [List.append_cons] at h
  rcases getLast_of_flatMap_spaceBrace h with hbar | ⟨before, rfl, hbefore, -⟩
  · cases hbar
  rcases getLast_of_flatMap_spaceBrace hbefore with rfl | ⟨before, rfl, -, hone⟩
  · rfl
  · by_contra hblank
    exact hp ⟨before, c, by simp, by simp [holdsBar, hc, hone, hblank]⟩

theorem isBlank_of_not_beginsWithBar {q rest : List Char} (hq : ¬ BeginsWithBar q)
    (h : q.flatMap spaceBrace = '|' :: c :: rest) (hc : freesBar c = true) :
    Text.isBlank c = true := by
  rcases head_of_flatMap_spaceBrace h with hbar | ⟨after, rfl, hafter, -⟩
  · cases hbar
  rcases head_of_flatMap_spaceBrace hafter with rfl | ⟨after, rfl, -, hone⟩
  · rfl
  · by_contra hblank
    exact hq ⟨c, after, rfl, by simp [holdsBar, hc, hone, hblank]⟩

theorem flatMap_spaceBrace_blanks (hsep : ∀ c ∈ sep, Text.isBlank c = true) :
    sep.flatMap spaceBrace = sep := by
  have h := List.flatMap_congr fun c hc => spaceBrace_of_isBlank (hsep c hc)
  simpa using h

variable {p q : List Char}

theorem ofBare_append_blanks (hne : sep ≠ []) (hsep : ∀ c ∈ sep, Text.isBlank c = true)
    (p q : List Char) : ofBare (p ++ sep ++ q) = ofBare (p ++ [' ']) ++ ofBare (' ' :: q) := by
  have hbrace := flatMap_spaceBrace_blanks hsep
  obtain ⟨s, sep, rfl⟩ := List.exists_cons_of_ne_nil hne
  obtain ⟨hs, hsep⟩ := List.forall_mem_cons.mp hsep
  rw [ofBare, ofBare, ofBare, List.flatMap_append, List.flatMap_append, hbrace, List.append_assoc,
    List.cons_append, words_spaceBars_append hs, words_spaceBars_blanks hsep, List.map_append,
    List.flatMap_append, List.flatMap_cons]
  rfl

theorem ofBare_concat_blank (hp : ¬ EndsInBar p) : ofBare (p ++ [' ']) = ofBare p := by
  rw [ofBare, ofBare, List.flatMap_append]
  exact congrArg _ (words_spaceBars_concat_blank fun _ _ h hc => isBlank_of_not_endsInBar hp h hc)

theorem ofBare_cons_blank (hq : ¬ BeginsWithBar q) : ofBare (' ' :: q) = ofBare q := by
  rw [ofBare, ofBare, List.flatMap_cons]
  exact congrArg _ (words_spaceBars_cons_blank fun _ _ h hc => isBlank_of_not_beginsWithBar hq h hc)

variable {a b : List Char}

theorem ofLine_append_blanks (he : a.count '"' % 2 = 0) (hne : sep ≠ [])
    (hsep : ∀ c ∈ sep, Text.isBlank c = true) (b : List Char) :
    ofLine (a ++ sep ++ b) = ofLine (a ++ [' ']) ++ ofLine (' ' :: b) := by
  have hquote : '"' ∉ sep := fun hm => absurd (hsep _ hm) (by decide)
  obtain ⟨ts, p, -, hp, ha⟩ := exists_ofLine_append he
  obtain ⟨q, us, -, hb⟩ := exists_append_ofLine b
  have hline : ofLine (a ++ sep ++ b) = ts ++ (ofBare (p ++ sep ++ q) ++ us) := by
    rw [List.append_assoc, ha, ← List.append_assoc p, hb _ (by simp [hp, hquote])]
  have hend : ofLine (a ++ [' ']) = ts ++ ofBare (p ++ [' ']) := by
    rw [ha, ofLine_of_no_quote (by simp [hp])]
  have hstart : ofLine (' ' :: b) = ofBare (' ' :: q) ++ us := hb [' '] (by decide)
  rw [hline, hend, hstart, ofBare_append_blanks hne hsep]
  simp

theorem ofLine_concat_blank (he : a.count '"' % 2 = 0) (ha : ¬ EndsInBar a) :
    ofLine (a ++ [' ']) = ofLine a := by
  obtain ⟨ts, p, ⟨before, rfl⟩, hp, hline⟩ := exists_ofLine_append he
  have hbar : ¬ EndsInBar p := by
    rintro ⟨front, c, rfl, hc⟩
    exact ha ⟨before ++ front, c, by simp, hc⟩
  have hlone := hline []
  rw [List.append_nil, List.append_nil, ofLine_of_no_quote hp] at hlone
  rw [hline, hlone, ofLine_of_no_quote (by simp [hp]), ofBare_concat_blank hbar]

theorem ofLine_cons_blank (hb : ¬ BeginsWithBar b) : ofLine (' ' :: b) = ofLine b := by
  obtain ⟨q, us, ⟨after, rfl⟩, hline⟩ := exists_append_ofLine b
  have hbar : ¬ BeginsWithBar q := by
    rintro ⟨c, rest, rfl, hc⟩
    exact hb ⟨c, rest ++ after, rfl, hc⟩
  have hspace := hline [' '] (by decide)
  have hlone := hline [] (by simp)
  rw [List.nil_append, List.nil_append] at hlone
  rw [hlone, ← ofBare_cons_blank hbar]
  exact hspace

end Token

end BackusNaur

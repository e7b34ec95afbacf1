import BackusNaur.Proofs.Outcome
import BackusNaur.Proofs.Reading.Parsing
import Mathlib.Data.List.TakeWhile

/-!
# The syntax of right-hand sides

What tokens can write, said without the reader: an item is one token, a group stands between
braces, and a row of segments is any row of runs and groups. Since two runs next to each other are
one longer run, such a row is read in one way, the one where runs are as long as they can be.

`Node.ofTokens_eq_ok_iff`: the reader builds exactly the right-hand sides that are written, and
`Segment.Written.exists_ofTokens`: it reads whatever can be cut into runs and groups at all.
-/

namespace BackusNaur

theorem exists_forall₂_iff {R : α → β → Prop} :
    (∃ ys, List.Forall₂ R xs ys) ↔ ∀ x ∈ xs, ∃ y, R x y := by
  induction xs with
  | nil => simp
  | cons x xs ih =>
    rw [List.forall_mem_cons, ← ih]
    constructor
    · rintro ⟨_, _ | ⟨hy, hys⟩⟩
      exact ⟨⟨_, hy⟩, _, hys⟩
    · rintro ⟨⟨y, hy⟩, ys, hys⟩
      exact ⟨_, .cons hy hys⟩

theorem exists_mem_of_forall₂ {R : α → β → Prop} (h : List.Forall₂ R xs ys) (hy : y ∈ ys) :
    ∃ x ∈ xs, R x y := by
  induction h with
  | nil => cases hy
  | @cons x y' xs ys hx _ ih =>
    rcases List.mem_cons.mp hy with rfl | hy
    · exact ⟨x, .head _, hx⟩
    · obtain ⟨x', hx', hr⟩ := ih hy
      exact ⟨x', .tail _ hx', hr⟩

-- ---------------------------------------------------------------------------
-- What tokens write
-- ---------------------------------------------------------------------------

/-- An unquoted `<name>` writes a reference, every other token a literal. -/
inductive Item.Written : Token → Item → Prop
  | reference (name : String) : Written (.ofName name) (.reference name)
  | literal {t : Token} (h : ∀ name, t ≠ .ofName name) : Written t (.literal t.text)

/-- What follows a closing brace: the group's mark and the tokens after it. A group without a mark
repeats zero or more times, and what could be its mark is its mark. -/
inductive Quantifier.Written : List Token → Quantifier → List Token → Prop
  | mark (q : Quantifier) (rest : List Token) : Written (⟨q.render, false⟩ :: rest) q rest
  | none {rest : List Token} (h : ∀ q : Quantifier, rest.head? ≠ some ⟨q.render, false⟩) :
    Written rest .zeroOrMore rest

def Token.IsBrace (t : Token) : Prop := t = ⟨"\x7b", false⟩ ∨ t = ⟨"\x7d", false⟩

/-- Tokens as runs and groups in a row. Two runs can be next to each other: where a run ends is not
fixed. -/
inductive Segment.Written : List Token → List Segment → Prop
  | none : Written [] []
  | run {ts rest : List Token} {items : List Item} {parts : List Segment} (hne : ts ≠ [])
    (hplain : ∀ t ∈ ts, ¬ t.IsBrace) (hitems : List.Forall₂ Item.Written ts items)
    (hrest : Written rest parts) : Written (ts ++ rest) (.run items :: parts)
  | group {ts after rest : List Token} {items : List Item} {q : Quantifier} {parts : List Segment}
    (hplain : ∀ t ∈ ts, ¬ t.IsBrace) (hitems : List.Forall₂ Item.Written ts items)
    (hq : Quantifier.Written after q rest) (hrest : Written rest parts) :
    Written (⟨"\x7b", false⟩ :: ts ++ ⟨"\x7d", false⟩ :: after) (.group items q :: parts)

/-- No two runs are next to each other. -/
def Segment.Maximal (parts : List Segment) : Prop :=
  parts.IsChain fun p q => ¬ (p.isRun ∧ q.isRun)

namespace Token

theorem insideAngles?_eq_some_iff {text inside : List Char} :
    insideAngles? text = some inside ↔ text = '<' :: inside ++ ['>'] := by
  constructor
  · intro h
    unfold insideAngles? at h
    split at h
    · rename_i rest
      split at h
      · rename_i hlast
        obtain rfl := Option.some.inj h
        rw [List.cons_append, List.dropLast_append_getLast? _ hlast]
      · cases h
    · cases h
  · rintro rfl
    rw [List.cons_append, insideAngles?, if_pos (by simp), List.dropLast_concat]

theorem symbol?_eq_some_iff {t : Token} {name : String} :
    t.symbol? = some name ↔ t = .ofName name := by
  constructor
  · intro h
    cases t with
    | mk text quoted =>
      cases quoted with
      | true => cases h
      | false =>
        obtain ⟨inside, hi, rfl⟩ := Option.map_eq_some_iff.mp h
        have ht : text = (ofName (String.ofList inside)).text := by
          rw [← String.toList_inj, toList_ofName, insideAngles?_eq_some_iff.mp hi,
            String.toList_ofList]
        rw [ht]
        rfl
  · rintro rfl
    exact symbol?_ofName name

end Token

namespace Segment

variable {ts rest after : List Token}

theorem itemOfToken_eq_iff {t : Token} {item : Item} :
    itemOfToken t = item ↔ Item.Written t item := by
  constructor
  · rintro rfl
    unfold itemOfToken
    split
    · rename_i name h
      obtain rfl := Token.symbol?_eq_some_iff.mp h
      exact .reference name
    · rename_i h
      refine .literal fun name ht => ?_
      rw [Token.symbol?_eq_some_iff.mpr ht] at h
      cases h
  · rintro (_ | h)
    · rename_i name
      rw [itemOfToken, Token.symbol?_ofName]
    · have hn : t.symbol? = none :=
        Option.eq_none_iff_forall_ne_some.mpr fun name hs =>
          h name (Token.symbol?_eq_some_iff.mp hs)
      rw [itemOfToken, hn]

theorem map_itemOfToken_eq_iff {items : List Item} :
    ts.map itemOfToken = items ↔ List.Forall₂ Item.Written ts items := by
  rw [← List.forall₂_eq_eq_eq, List.forall₂_map_left_iff]
  simp only [itemOfToken_eq_iff]

theorem isPlain_iff {t : Token} : isPlain t = true ↔ ¬ t.IsBrace := by
  rw [isPlain_eq_true, isOpen, isClose, Token.IsBrace, not_or, Bool.eq_false_iff, Bool.eq_false_iff,
    ne_eq, ne_eq, Token.isOperator_iff, Token.isOperator_iff]

theorem mark_eq_some_iff {t : Token} {q : Quantifier} :
    (if t.quoted then none else Quantifier.ofText? t.text) = some q ↔ t = ⟨q.render, false⟩ := by
  cases t with
  | mk text quoted => cases quoted <;> simp [Quantifier.ofText?_eq_some_iff]

theorem takeQuantifier_eq_iff {q : Quantifier} :
    takeQuantifier after = (q, rest) ↔ Quantifier.Written after q rest := by
  constructor
  · intro h
    cases after with
    | nil =>
      obtain ⟨rfl, rfl⟩ := Prod.mk.inj h
      exact .none (by simp)
    | cons t after =>
      rw [takeQuantifier] at h
      split at h
      · rename_i hm
        obtain ⟨rfl, rfl⟩ := Prod.mk.inj h
        rw [mark_eq_some_iff.mp hm]
        exact .mark _ _
      · rename_i hm
        obtain ⟨rfl, rfl⟩ := Prod.mk.inj h
        refine .none fun q hq => ?_
        rw [mark_eq_some_iff.mpr (Option.some.inj hq)] at hm
        cases hm
  · rintro (_ | h)
    · exact takeQuantifier_render q rest
    · cases rest with
      | nil => rfl
      | cons t rest =>
        have hm : (if t.quoted then none else Quantifier.ofText? t.text) = none :=
          Option.eq_none_iff_forall_ne_some.mpr fun q hs =>
            h q (congrArg some (mark_eq_some_iff.mp hs))
        rw [takeQuantifier, hm]

theorem Written.any_isRun {parts : List Segment} (h : Written ts parts) :
    parts.head?.any isRun = ts.head?.any isPlain := by
  cases h with
  | none => rfl
  | run hne hplain =>
    obtain ⟨t, ts, rfl⟩ := List.exists_cons_of_ne_nil hne
    simp [isRun, isPlain_iff.mpr (hplain t (.head _))]
  | group => rfl

theorem eq_append_of_dropWhile {c : Token} (h : rest.dropWhile (!isClose ·) = c :: after) :
    rest = rest.takeWhile (!isClose ·) ++ c :: after ∧ isClose c = true := by
  refine ⟨?_, ?_⟩
  · rw [← h, List.takeWhile_append_dropWhile]
  · have hc := List.head?_dropWhile_not (!isClose ·) rest
    rw [h] at hc
    simpa using hc

theorem eq_append_close {c : Token} (h : rest.dropWhile (!isClose ·) = c :: after)
    (hany : ¬ (rest.takeWhile (!isClose ·)).any isOpen = true) :
    rest = rest.takeWhile (!isClose ·) ++ c :: after ∧ isClose c = true ∧
      ∀ t ∈ rest.takeWhile (!isClose ·), isPlain t = true := by
  obtain ⟨hrest, hc⟩ := eq_append_of_dropWhile h
  refine ⟨hrest, hc, fun t ht => isPlain_eq_true.mpr ⟨?_, ?_⟩⟩
  · simpa using fun ho => hany (List.any_eq_true.mpr ⟨t, ht, ho⟩)
  · simpa using List.mem_takeWhile_imp ht

theorem ofTokens_cons_of_plain {t : Token} (ht : isPlain t = true) : ofTokens (t :: rest) =
    (ofTokens (rest.dropWhile isPlain)).map
      (.run ((t :: rest.takeWhile isPlain).map itemOfToken) :: ·) := by
  obtain ⟨ho, hc⟩ := isPlain_eq_true.mp ht
  rw [ofTokens, if_neg (by simp [hc]), if_neg (by simp [ho])]
  cases ofTokens (rest.dropWhile isPlain) <;> rfl

theorem not_isBrace_of_mem_run {t : Token} (ht : isPlain t = true) (rest : List Token) :
    ∀ s ∈ t :: rest.takeWhile isPlain, ¬ s.IsBrace :=
  List.forall_mem_cons.mpr
    ⟨isPlain_iff.mp ht, fun _ hs => isPlain_iff.mp (List.mem_takeWhile_imp hs)⟩

/-- What is read is written by the tokens, and its runs are as long as they can be. -/
theorem written_of_ofTokens {parts : List Segment} (h : ofTokens ts = .ok parts) :
    Written ts parts ∧ Maximal parts := by
  induction ts using ofTokens.induct generalizing parts with
  | case1 =>
    rw [ofTokens] at h
    cases h
    exact ⟨.none, .nil⟩
  | case2 t rest hc =>
    rw [ofTokens, if_pos hc] at h
    cases h
  | case3 t rest hc ho hdrop =>
    rw [ofTokens, if_neg hc, if_pos ho] at h
    split at h
    · cases h
    · rename_i hcons
      rw [hdrop] at hcons
      cases hcons
  | case4 t rest hc ho c after hdrop inside =>
    rename_i hany
    rw [ofTokens, if_neg hc, if_pos ho] at h
    split at h
    · cases h
    · rw [if_pos hany] at h
      cases h
  | case5 t rest hc ho c after hdrop inside hany tail =>
    rename_i ih
    obtain ⟨hrest, hclose, hplain⟩ : rest = inside ++ c :: after ∧ isClose c = true ∧
        ∀ s ∈ inside, isPlain s = true := eq_append_close hdrop hany
    rw [hrest, ← List.cons_append, ofTokens_group ho hplain hclose, exceptMap_eq_ok] at h
    obtain ⟨others, hothers, rfl⟩ := h
    obtain ⟨hw, hm⟩ := ih hothers
    rw [hrest, ← List.cons_append, Token.isOperator_iff.mp ho, Token.isOperator_iff.mp hclose]
    refine ⟨.group (fun s hs => isPlain_iff.mp (hplain s hs)) (map_itemOfToken_eq_iff.mp rfl)
      (takeQuantifier_eq_iff.mp rfl) hw, ?_⟩
    exact hm.cons (by simp [isRun])
  | case6 t rest hc ho ih =>
    have ht : isPlain t = true := isPlain_eq_true.mpr ⟨by simpa using ho, by simpa using hc⟩
    rw [ofTokens_cons_of_plain ht, exceptMap_eq_ok] at h
    obtain ⟨others, hothers, rfl⟩ := h
    obtain ⟨hw, hm⟩ := ih hothers
    have hplain := not_isBrace_of_mem_run ht rest
    have hrun := Written.run (by simp) hplain (map_itemOfToken_eq_iff.mp rfl) hw
    rw [List.cons_append, List.takeWhile_append_dropWhile] at hrun
    refine ⟨hrun, hm.cons fun p hp hr => ?_⟩
    -- A run after it would begin with a token that this one has left.
    have hhead := hw.any_isRun
    rw [hp, Option.any_some, hr.2, eq_comm, Option.any_eq_true] at hhead
    obtain ⟨s, hs, hplain⟩ := hhead
    have hstop := List.head?_dropWhile_not isPlain rest
    rw [hs] at hstop
    cases hplain.symm.trans hstop

/-- A row whose runs are as long as they can be is read as it is. -/
theorem Written.ofTokens_eq {parts : List Segment} (h : Written ts parts) (hm : Maximal parts) :
    ofTokens ts = .ok parts := by
  induction h with
  | none => rw [ofTokens]
  | @run ts rest items parts hne hplain hitems hrest ih =>
    have hstop : ∀ t, rest.head? = some t → isPlain t = false := by
      intro t ht
      have hhead := hrest.any_isRun
      rw [ht, Option.any_some] at hhead
      cases parts with
      | nil => exact hhead.symm
      | cons p parts =>
        have hp : p.isRun = false := by simpa [isRun] using (List.isChain_cons_cons.mp hm).1
        exact hhead.symm.trans hp
    rw [ofTokens_run hne (fun t ht => isPlain_iff.mpr (hplain t ht)) hstop, ih hm.tail,
      map_itemOfToken_eq_iff.mpr hitems]
    rfl
  | @group ts after rest items q parts hplain hitems hq hrest ih =>
    rw [ofTokens_group rfl (fun t ht => isPlain_iff.mpr (hplain t ht)) rfl,
      takeQuantifier_eq_iff.mpr hq, ih hm.tail, map_itemOfToken_eq_iff.mpr hitems]
    rfl

theorem Written.exists_ofTokens {parts : List Segment} (h : Written ts parts) :
    ∃ read, ofTokens ts = .ok read := by
  induction h with
  | none => exact ⟨[], by rw [ofTokens]⟩
  | @run ts rest items parts hne hplain hitems hrest ih =>
    obtain ⟨read, hread⟩ := ih
    obtain ⟨others, hothers⟩ : ∃ others, ofTokens (rest.dropWhile isPlain) = .ok others := by
      cases rest with
      | nil => exact ⟨read, hread⟩
      | cons s rest =>
        cases hs : isPlain s with
        | false => exact ⟨read, by rwa [List.dropWhile_cons_of_neg (by simp [hs])]⟩
        | true =>
          rw [ofTokens_cons_of_plain hs, exceptMap_eq_ok] at hread
          obtain ⟨others, hothers, -⟩ := hread
          exact ⟨others, by rwa [List.dropWhile_cons_of_pos hs]⟩
    obtain ⟨t, ts, rfl⟩ := List.exists_cons_of_ne_nil hne
    have hts : ∀ s ∈ ts, isPlain s = true := fun s hs => isPlain_iff.mpr (hplain s (.tail _ hs))
    rw [List.cons_append, ofTokens_cons_of_plain (isPlain_iff.mpr (hplain t (.head _))),
      List.dropWhile_append_of_pos hts, hothers]
    exact ⟨_, rfl⟩
  | @group ts after rest items q parts hplain hitems hq hrest ih =>
    obtain ⟨read, hread⟩ := ih
    rw [ofTokens_group rfl (fun t ht => isPlain_iff.mpr (hplain t ht)) rfl,
      takeQuantifier_eq_iff.mpr hq, hread]
    exact ⟨_, rfl⟩

end Segment

-- ---------------------------------------------------------------------------
-- Right-hand sides
-- ---------------------------------------------------------------------------

/-- One alternative: at least one token, and a sequence of the segments they write. -/
inductive Node.WrittenAlternative : List Token → Node → Prop
  | sequence {ts : List Token} {parts : List Segment} (hne : ts ≠ [])
    (hparts : Segment.Written ts parts) (hmax : Segment.Maximal parts) :
    WrittenAlternative ts (.sequence parts)

/-- A right-hand side: there is an alternative between each two bars, and they are joined from the
left. -/
def Node.Written (ts : List Token) (node : Node) : Prop :=
  ∃ first others, List.Forall₂ WrittenAlternative (pieces isBar ts) (first :: others) ∧
    node = others.foldl .alternation first

namespace Node

theorem ofAlternative_eq_ok_iff {ts : List Token} {node : Node} :
    ofAlternative ts = .ok node ↔ WrittenAlternative ts node := by
  constructor
  · intro h
    rw [ofAlternative] at h
    split at h
    · cases h
    · rename_i hne
      obtain ⟨parts, hparts, rfl⟩ := exceptMap_eq_ok.mp h
      obtain ⟨hw, hm⟩ := Segment.written_of_ofTokens hparts
      exact .sequence (by simpa using hne) hw hm
  · rintro ⟨hne, hw, hm⟩
    rw [ofAlternative, if_neg (by simpa using hne), hw.ofTokens_eq hm]
    rfl

theorem ofTokens_eq_ok_iff {ts : List Token} {node : Node} :
    ofTokens ts = .ok node ↔ Written ts node := by
  simp only [ofTokens, exceptBind_eq_ok, mapM_eq_ok_iff, ofAlternative_eq_ok_iff]
  constructor
  · rintro ⟨nodes, hnodes, h⟩
    cases nodes with
    | nil => cases h
    | cons first others => exact ⟨first, others, hnodes, (Except.ok.inj h).symm⟩
  · rintro ⟨first, others, hnodes, rfl⟩
    exact ⟨_, hnodes, rfl⟩

theorem exists_written_iff {ts : List Token} : (∃ node, Written ts node) ↔
    ∀ alternative ∈ pieces isBar ts,
      alternative ≠ [] ∧ ∃ parts, Segment.Written alternative parts := by
  have hread : ∀ alternative, (∃ node, WrittenAlternative alternative node) ↔
      alternative ≠ [] ∧ ∃ parts, Segment.Written alternative parts := by
    intro alternative
    constructor
    · rintro ⟨_, hne, hparts, -⟩
      exact ⟨hne, _, hparts⟩
    · rintro ⟨hne, _, hparts⟩
      obtain ⟨parts, hread⟩ := hparts.exists_ofTokens
      obtain ⟨hw, hm⟩ := Segment.written_of_ofTokens hread
      exact ⟨_, .sequence hne hw hm⟩
  simp only [← hread, ← exists_forall₂_iff]
  constructor
  · rintro ⟨_, first, others, h, -⟩
    exact ⟨_, h⟩
  · rintro ⟨nodes, h⟩
    cases nodes with
    | nil => exact absurd (List.forall₂_nil_right_iff.mp h) (pieces_ne_nil isBar ts)
    | cons first others => exact ⟨_, first, others, h, rfl⟩

end Node

end BackusNaur

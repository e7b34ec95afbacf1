import BackusNaur.Proofs.Reading.Headers
import BackusNaur.Proofs.Reading.Rows
import BackusNaur.Proofs.Reading.TokenShape
import Mathlib.Data.List.Permutation

/-!
# What is read is well-formed

The definitions of a grammar text have the shape that reading gives them, and names and literals
hold only what lexing leaves in tokens. Their lines increase, for each of them starts at a line of
its own.

`Definition.wellFormed_of_readAll`: all of this, for every text that can be read.
-/

namespace BackusNaur

variable {t : Token} {ts : List Token}

theorem Token.Shape.writable (h : (Token.ofName name).Shape) : Writable name := by
  have hword : IsWord ('<' :: name.toList ++ ['>']) := by
    rw [← toList_ofName]
    unfold Token.ofName at h ⊢
    cases h with
    | bare hword => exact hword
  refine ⟨fun c hc => hword.no_blank c (by simp [hc]), fun hm => hword.no_quote (by simp [hm]),
    fun c hc hm => ?_, fun before after hbar => ?_⟩
  · have hmem : c ∈ '<' :: name.toList ++ ['>'] := by simp [hm]
    rcases List.mem_append.mp (show c ∈ ['{', '}'] ++ ['[', ']'] from hc) with hbrace | hbracket
    · simpa using congrArg List.length (hword.brace_alone c hbrace hmem)
    · exact hword.no_bracket c hbracket hmem
  · -- The angle brackets are neighbours of the first and the last bar, if no character is.
    rcases List.eq_nil_or_concat before with rfl | ⟨front, a, rfl⟩
    · cases (List.cons.inj hbar).1
    · cases after with
      | nil => cases (List.append_inj' hbar rfl).2
      | cons b back =>
        have hpart : [a, '|', b] <:+: '<' :: name.toList ++ ['>'] := ⟨front, back, by simp [hbar]⟩
        simpa using hword.bars_joined a b hpart

theorem Item.Written.wellFormed {item : Item} (h : Item.Written t item) (ht : t.Shape) :
    item.WellFormed := by
  cases h with
  | reference name => exact ht.writable
  | literal =>
    cases ht with
    | quoted hquote hbreak => exact ⟨hquote, hbreak⟩
    | bare hword =>
      exact ⟨hword.no_quote, fun c hc =>
        Text.isLineBreak_of_isBlank_eq_false (hword.no_blank c hc)⟩

theorem Quantifier.Written.suffix {q : Quantifier} (h : Written ts q rest) : rest <:+ ts := by
  cases h with
  | mark => exact List.suffix_cons _ _
  | none => exact List.suffix_rfl

namespace Segment

variable {parts : List Segment}

theorem Written.ne_nil (h : Written ts parts) (hne : ts ≠ []) : parts ≠ [] := by
  cases h with
  | none => exact absurd rfl hne
  | run | group => exact List.cons_ne_nil _ _

theorem Written.exists_token (h : Written ts parts) :
    ∀ part ∈ parts, ∀ item ∈ part.items, ∃ t ∈ ts, Item.Written t item := by
  induction h with
  | none => nofun
  | run _ _ hitems _ ih =>
    refine List.forall_mem_cons.mpr ⟨fun item hm => ?_, fun part hp item hm => ?_⟩
    · obtain ⟨t, ht, hw⟩ := exists_mem_of_forall₂ hitems hm
      exact ⟨t, List.mem_append_left _ ht, hw⟩
    · obtain ⟨t, ht, hw⟩ := ih part hp item hm
      exact ⟨t, List.mem_append_right _ ht, hw⟩
  | group _ hitems hq _ ih =>
    refine List.forall_mem_cons.mpr ⟨fun item hm => ?_, fun part hp item hm => ?_⟩
    · obtain ⟨t, ht, hw⟩ := exists_mem_of_forall₂ hitems hm
      exact ⟨t, List.mem_append_left _ (.tail _ ht), hw⟩
    · obtain ⟨t, ht, hw⟩ := ih part hp item hm
      have hafter := hq.suffix.subset ht
      exact ⟨t, by simp [hafter], hw⟩

theorem Written.items_ne_nil (h : Written ts parts) :
    ∀ part ∈ parts, part.isRun → part.items ≠ [] := by
  induction h with
  | none => nofun
  | @run ts rest items parts hne _ hitems _ ih =>
    refine List.forall_mem_cons.mpr ⟨fun _ hnil => ?_, ih⟩
    obtain rfl : items = [] := hnil
    exact hne (List.forall₂_nil_right_iff.mp hitems)
  | group _ _ _ _ ih => exact List.forall_mem_cons.mpr ⟨nofun, ih⟩

theorem Written.wellFormed (h : Written ts parts) (hts : ∀ t ∈ ts, t.Shape) :
    ∀ part ∈ parts, part.WellFormed := by
  intro part hp
  refine ⟨h.items_ne_nil part hp, fun item hm => ?_⟩
  obtain ⟨t, ht, hw⟩ := h.exists_token part hp item hm
  exact hw.wellFormed (hts t ht)

end Segment

namespace Node

variable {node : Node}

theorem WrittenAlternative.wellFormed (h : WrittenAlternative ts node) (hts : ∀ t ∈ ts, t.Shape) :
    (∃ parts, node = .sequence parts) ∧ node.WellFormed := by
  cases h with
  | sequence hne hparts hmax =>
    exact ⟨⟨_, rfl⟩, hparts.ne_nil hne, hparts.wellFormed hts, hmax⟩

theorem WrittenAlternative.mem_of_reference (h : WrittenAlternative ts node)
    (hname : name ∈ node.references) : .ofName name ∈ ts := by
  cases h with
  | sequence hne hparts hmax =>
    obtain ⟨part, hp, hname⟩ := List.mem_flatMap.mp hname
    obtain ⟨item, hm, hname⟩ := List.mem_filterMap.mp hname
    obtain ⟨t, ht, hw⟩ := hparts.exists_token part hp item hm
    cases hw with
    | reference => exact Option.some.inj hname ▸ ht
    | literal => cases hname

theorem wellFormed_foldl {others : List Node} (hfirst : node.WellFormed)
    (hothers : ∀ other ∈ others, (∃ parts, other = .sequence parts) ∧ other.WellFormed) :
    (others.foldl alternation node).WellFormed := by
  induction others generalizing node with
  | nil => exact hfirst
  | cons other others ih =>
    obtain ⟨hother, hothers⟩ := List.forall_mem_cons.mp hothers
    exact ih ⟨hfirst, hother⟩ hothers

theorem references_foldl (node : Node) (others : List Node) :
    (others.foldl alternation node).references = (node :: others).flatMap references := by
  induction others generalizing node with
  | nil => simp
  | cons other others ih =>
    rw [List.foldl_cons, ih]
    simp [references]

theorem Written.wellFormed (h : Written ts node) (hts : ∀ t ∈ ts, t.Shape) :
    node.WellFormed := by
  obtain ⟨first, others, hparts, rfl⟩ := h
  have hall : ∀ node ∈ first :: others, (∃ parts, node = .sequence parts) ∧ node.WellFormed := by
    intro node hnode
    obtain ⟨piece, hp, hw⟩ := exists_mem_of_forall₂ hparts hnode
    exact hw.wellFormed fun t ht => hts t (mem_of_mem_pieces piece hp t ht)
  obtain ⟨hfirst, hothers⟩ := List.forall_mem_cons.mp hall
  exact wellFormed_foldl hfirst.2 hothers

theorem Written.mem_of_reference (h : Written ts node) (hname : name ∈ node.references) :
    .ofName name ∈ ts := by
  obtain ⟨first, others, hparts, rfl⟩ := h
  rw [references_foldl] at hname
  obtain ⟨node, hnode, hname⟩ := List.mem_flatMap.mp hname
  obtain ⟨piece, hp, hw⟩ := exists_mem_of_forall₂ hparts hnode
  exact mem_of_mem_pieces piece hp _ (hw.mem_of_reference hname)

end Node

namespace Block

variable {lines : List Line} {blocks : List Block} {b : Block} {d : Definition}

theorem Cut.exists_line (h : Cut lines blocks) :
    ∀ b ∈ blocks, ∀ t ∈ b.head :: b.body, ∃ line ∈ lines, t ∈ line.tokens := by
  induction h with
  | none => nofun
  | @block line more rest head body blocks hline _ _ ih =>
    refine List.forall_mem_cons.mpr ⟨fun t ht => ?_, fun b hb t ht => ?_⟩
    · rw [← List.cons_append, List.mem_append] at ht
      rcases ht with ht | ht
      · have hcons : t ∈ head :: ⟨Token.define, false⟩ :: body :=
          (List.cons_subset_cons _ (List.subset_cons_self _ _)) ht
        exact ⟨line, .head _, hline ▸ hcons⟩
      · obtain ⟨l, hl, ht⟩ := List.mem_flatMap.mp ht
        exact ⟨l, List.mem_append_left _ (.tail _ hl), ht⟩
    · obtain ⟨l, hl, ht⟩ := ih b hb t ht
      exact ⟨l, List.mem_append_right _ hl, ht⟩

end Block

theorem Definition.writable_of_readAll {text : String} {ds : List Definition}
    (h : readAll text = .ok ds) : ∀ d ∈ ds, Writable d.name := by
  obtain ⟨-, blocks, hcut, -, hw⟩ := Reading.result_ofLines_eq_ok_iff.mp h
  intro d hd
  obtain ⟨b, hb, hwritten⟩ := exists_mem_of_forall₂ hw hd
  obtain ⟨line, hline, hhead⟩ := hcut.exists_line b hb b.head (.head _)
  exact Token.Shape.writable (hwritten.head ▸ Line.shape_of_mem_ofText line hline b.head hhead)

/-- What a text is read as is well-formed: the names are distinct, nothing refers to itself, the
right-hand sides have the shape of what is written, and names and literals hold no character that
could not be written. The definitions come in the order of their lines. -/
theorem Definition.wellFormed_of_readAll (text : String) (ds : List Definition)
    (h : readAll text = .ok ds) :
    WellFormed (ds.map content) ∧ ds.Pairwise fun d e => d.line < e.line := by
  obtain ⟨-, blocks, hcut, hnodup, hw⟩ := Reading.result_ofLines_eq_ok_iff.mp h
  have hshape : ∀ b ∈ blocks, ∀ t ∈ b.head :: b.body, t.Shape := by
    intro b hb t ht
    obtain ⟨line, hline, ht⟩ := hcut.exists_line b hb t ht
    exact Line.shape_of_mem_ofText line hline t ht
  have hblock : ∀ d ∈ ds, ∃ b ∈ blocks, b.Written d := fun d hd => exists_mem_of_forall₂ hw hd
  have hlines : ds.map line = blocks.map Block.line := by
    rw [← List.forall₂_eq_eq_eq, List.forall₂_map_left_iff, List.forall₂_map_right_iff]
    exact hw.flip.imp fun _ _ hb => hb.line
  refine ⟨⟨?_, ?_, ?_, ?_⟩, ?_⟩
  · rw [List.map_map]
    exact hnodup
  · refine List.forall_mem_map.mpr fun d hd => ?_
    obtain ⟨b, hb, hwritten⟩ := hblock d hd
    exact Token.Shape.writable (hwritten.head ▸ hshape b hb b.head (.head _))
  · refine List.forall_mem_map.mpr fun d hd => ?_
    obtain ⟨b, hb, hwritten⟩ := hblock d hd
    exact hwritten.node.wellFormed fun t ht => hshape b hb t (.tail _ ht)
  · refine List.forall_mem_map.mpr fun d hd hself => ?_
    obtain ⟨b, hb, hwritten⟩ := hblock d hd
    exact hwritten.no_self (hwritten.head ▸ hwritten.node.mem_of_reference hself)
  · rw [← List.pairwise_map, hlines]
    exact (List.pairwise_map.mpr (Line.pairwise_number text)).sublist hcut.sublist_number

theorem Definition.wellFormed_of_readAll_bars : ∃ first second,
    readAll "<a|b> ::= <c> +|- [\"x y\"]\n\n<c> ::= \x7bz\x7d w" = .ok [first, second] ∧
      WellFormed [first.content, second.content] ∧ first.line < second.line := by
  have hlines : Line.ofText "<a|b> ::= <c> +|- [\"x y\"]\n\n<c> ::= \x7bz\x7d w" =
      [⟨1, [⟨"<a|b>", false⟩, ⟨"::=", false⟩, ⟨"<c>", false⟩, ⟨"+", false⟩, ⟨"|", false⟩,
          ⟨"-", false⟩, ⟨"\x7b", false⟩, ⟨"x y", true⟩, ⟨"\x7d", false⟩, ⟨"?", false⟩]⟩,
        ⟨3, [⟨"<c>", false⟩, ⟨"::=", false⟩, ⟨"\x7b", false⟩, ⟨"z", false⟩, ⟨"\x7d", false⟩,
          ⟨"w", false⟩]⟩] := by decide
  have hread : readAll "<a|b> ::= <c> +|- [\"x y\"]\n\n<c> ::= \x7bz\x7d w" =
      .ok [⟨"a|b", .alternation (.sequence [.run [.reference "c", .literal "+"]])
          (.sequence [.run [.literal "-"], .group [.literal "x y"] .optional]), 1⟩,
        ⟨"c", .sequence [.group [.literal "z"] .zeroOrMore, .run [.literal "w"]], 3⟩] := by
    rw [readAll, Reading.ofText, hlines]
    cbv
  obtain ⟨hwf, hlines⟩ := wellFormed_of_readAll _ _ hread
  exact ⟨_, _, hread, hwf, List.rel_of_pairwise_cons hlines (.head _)⟩

end BackusNaur

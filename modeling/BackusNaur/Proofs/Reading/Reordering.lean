import BackusNaur.Grammar
import BackusNaur.Proofs.Reading.Headers
import BackusNaur.Proofs.Reading.Rows
import Mathlib.Data.List.Permutation

/-!
# The order of definitions

A definition is read from its own block, and from the other blocks nothing counts but which symbols
they define. A grammar then sorts what was read. So texts that each begin with a definition can be
joined in any order: what changes is the lines that the definitions are on.

`Grammar.ofText_perm`: texts joined in two orders are read both or neither, and give grammars with
the same names, right-hand sides and matches.
-/

namespace BackusNaur

-- ---------------------------------------------------------------------------
-- Joined texts
-- ---------------------------------------------------------------------------

namespace Block

variable {after : String} {texts : List String} {bs cs : List Block} {ds : List Definition}

theorem cut_combine (before : String) (hafter : (cut (Line.ofText after)).1 = []) :
    (cut (Line.ofText (combine before [after]))).1 = (cut (Line.ofText before)).1 ∧
      (cut (Line.ofText (combine before [after]))).2.map content =
        (cut (Line.ofText before)).2.map content ++ (cut (Line.ofText after)).2.map content := by
  have hraised : (cut ((Line.ofText after).map
      (Line.raise (Text.lineCount (before ++ "\n"))))).1 = [] := by
    rw [cut_map_raise, hafter]
    rfl
  rw [Line.ofText_combine, cut_append hraised, cut_map_raise]
  refine ⟨rfl, ?_⟩
  rw [List.map_append, List.map_map]
  rfl

theorem cut_intercalate (h : ∀ text ∈ texts, (cut (Line.ofText text)).1 = []) :
    (cut (Line.ofText ("\n".intercalate texts))).1 = [] ∧
      (cut (Line.ofText ("\n".intercalate texts))).2.map content =
        texts.flatMap fun text => (cut (Line.ofText text)).2.map content := by
  cases texts with
  | nil => exact ⟨rfl, rfl⟩
  | cons first texts =>
    obtain ⟨hfirst, hothers⟩ := List.forall_mem_cons.mp h
    clear h
    induction texts using List.reverseRecOn with
    | nil => simpa using hfirst
    | append_singleton texts last ih =>
      obtain ⟨htexts, hlast⟩ := List.forall_mem_append.mp hothers
      obtain ⟨hloose, hblocks⟩ := ih htexts
      obtain ⟨hloose', hblocks'⟩ :=
        cut_combine (combine first texts) (hlast last (.head _))
      rw [← combine_concat] at hloose' hblocks'
      refine ⟨hloose'.trans hloose, hblocks'.trans ?_⟩
      rw [← List.cons_append, List.flatMap_append, ← hblocks, List.flatMap_singleton]
      rfl

-- ---------------------------------------------------------------------------
-- Blocks in another order
-- ---------------------------------------------------------------------------

/-- Blocks of the same content in another order write the same definitions, in that order. -/
theorem exists_written_of_perm (h : (bs.map content).Perm (cs.map content))
    (hw : List.Forall₂ Written bs ds) : ∃ es, List.Forall₂ Written cs es ∧
      (es.map Definition.content).Perm (ds.map Definition.content) := by
  -- The blocks are put in order first, and then their lines are changed.
  have hcontent : List.Forall₂ (fun c b => c = content b) (bs.map content) bs := by
    rw [List.forall₂_map_left_iff]
    exact List.forall₂_same.mpr fun _ _ => rfl
  obtain ⟨bs', hbs', hperm⟩ := List.perm_comp_forall₂ h.symm hcontent
  obtain ⟨ds', hds', hdperm⟩ := List.perm_comp_forall₂ hperm hw
  have hsame : bs'.map content = cs.map content := by
    rw [← List.forall₂_eq_eq_eq, List.forall₂_map_left_iff]
    exact hbs'.flip.imp fun _ _ hc => hc.symm
  obtain ⟨es, hes, heq⟩ := exists_written_of_content hsame hds'
  exact ⟨es, hes, heq ▸ hdperm.map _⟩

end Block

theorem Definition.nodup_iff_of_perm {ds es : List Definition}
    (h : (es.map content).Perm (ds.map content)) :
    (es.map name).Nodup ↔ (ds.map name).Nodup := by
  have hnames := h.map Prod.fst
  rw [List.map_map, List.map_map] at hnames
  exact hnames.nodup_iff

theorem Reading.result_of_perm {xs ys : List Line} {ds : List Definition}
    (hx : (Block.cut xs).1 = []) (hy : (Block.cut ys).1 = [])
    (h : ((Block.cut xs).2.map Block.content).Perm ((Block.cut ys).2.map Block.content))
    (hread : (ofLines xs).result = .ok ds) : ∃ es, (ofLines ys).result = .ok es ∧
      (es.map Definition.content).Perm (ds.map Definition.content) := by
  obtain ⟨hne, bs, hcut, hnodup, hw⟩ := result_ofLines_eq_ok_iff.mp hread
  have hycut : Block.Cut ys (Block.cut ys).2 := Block.cut_eq_iff.mp (Prod.ext hy rfl)
  rw [hcut.cut_eq] at h
  obtain ⟨es, hes, hperm⟩ := Block.exists_written_of_perm h hw
  refine ⟨es, result_ofLines_eq_ok_iff.mpr ⟨?_, _, hycut, ?_, hes⟩, hperm⟩
  · rintro rfl
    obtain rfl : bs = [] := by simpa [Block.cut] using h
    cases hcut
    exact hne rfl
  · exact (Definition.nodup_iff_of_perm hperm).mpr hnodup

namespace Definition

variable {texts others : List String} {text : String} {d : Definition} {ds : List Definition}

/-- What texts are read as when they are joined does not depend on their order. -/
theorem readAll_perm (hperm : texts.Perm others)
    (hstarts : ∀ text ∈ texts, ∀ first, (Line.ofText text).head? = some first → first.Starts)
    (h : readAll ("\n".intercalate texts) = .ok ds) :
    ∃ es, readAll ("\n".intercalate others) = .ok es ∧
      (es.map content).Perm (ds.map content) := by
  have htexts : ∀ text ∈ texts, (Block.cut (Line.ofText text)).1 = [] := fun text ht =>
    Block.cut_fst_eq_nil_iff.mpr (hstarts text ht)
  have hothers : ∀ text ∈ others, (Block.cut (Line.ofText text)).1 = [] := fun text ht =>
    htexts text (hperm.mem_iff.mpr ht)
  obtain ⟨hloose, hblocks⟩ := Block.cut_intercalate htexts
  obtain ⟨hloose', hblocks'⟩ := Block.cut_intercalate hothers
  refine Reading.result_of_perm hloose hloose' ?_ h
  rw [hblocks, hblocks']
  exact hperm.flatMap_right _

-- ---------------------------------------------------------------------------
-- The header of a definition
-- ---------------------------------------------------------------------------

/-- The definition is on the line of the only header of its symbol. -/
def HasHeaderIn (d : Definition) (text : String) : Prop :=
  ∃ header ∈ Line.ofText text, header.number = d.line ∧
    ∀ line ∈ Line.ofText text, line.Declares d.name ↔ line = header

theorem hasHeaderIn_of_readAll (h : readAll text = .ok ds) (hd : d ∈ ds) : d.HasHeaderIn text := by
  obtain ⟨-, blocks, hcut, hnodup, hw⟩ := Reading.result_ofLines_eq_ok_iff.mp h
  obtain ⟨b, hb, hwritten⟩ := exists_mem_of_forall₂ hw hd
  obtain ⟨header, hmem, hnumber, body, htokens⟩ := hcut.exists_header hb
  refine ⟨header, hmem, hnumber.trans hwritten.line.symm, fun line hline => ⟨?_, ?_⟩⟩
  · rintro ⟨body', htokens'⟩
    obtain ⟨b', hb', hnumber', hhead'⟩ := hcut.exists_block hline htokens'
    obtain ⟨d', hd', hwritten'⟩ := exists_mem_of_forall₂ hw.flip hb'
    have hname : d'.name = d.name :=
      Token.text_ofName_inj.mp (congrArg Token.text (hwritten'.head.symm.trans hhead'))
    obtain rfl : d' = d := List.inj_on_of_nodup_map hnodup hd' hd hname
    have heq : line.number = header.number := by
      rw [hnumber, ← hnumber', ← hwritten.line, ← hwritten'.line]
    exact Line.eq_of_number_eq hline hmem heq
  · rintro rfl
    exact ⟨body, by rw [htokens, hwritten.head]⟩

end Definition

-- ---------------------------------------------------------------------------
-- Grammars
-- ---------------------------------------------------------------------------

namespace Grammar

variable {text : String} {path : Option String} {settings : Settings} {ds es : List Definition}

theorem sorted_perm (ds : List Definition) : (sorted ds).Perm ds := List.mergeSort_perm ..

theorem pairwise_name_sorted (hnodup : (ds.map Definition.name).Nodup) :
    (sorted ds).Pairwise fun a b => a.name < b.name := by
  have hle : (sorted ds).Pairwise fun a b => decide (a.name ≤ b.name) = true := by
    refine List.pairwise_mergeSort ?_ ?_ ds
    · intro a b c
      simpa using String.le_trans
    · intro a b
      simpa using String.le_total a.name b.name
  have hne : (sorted ds).Pairwise fun a b => a.name ≠ b.name :=
    List.pairwise_map.mp (((sorted_perm ds).map _).nodup_iff.mpr hnodup)
  refine hle.imp₂ (fun a b hab hn => ?_) hne
  exact String.not_le.mp fun hba => hn (String.le_antisymm (of_decide_eq_true hab) hba)

theorem tableOf_sorted_of_perm (hnodup : (ds.map Definition.name).Nodup)
    (h : (es.map Definition.content).Perm (ds.map Definition.content)) :
    tableOf (sorted es) = tableOf (sorted ds) := by
  have hperm : (tableOf (sorted es)).Perm (tableOf (sorted ds)) :=
    ((sorted_perm es).map _).trans (h.trans ((sorted_perm ds).map _).symm)
  have hds : (tableOf (sorted ds)).Pairwise fun a b => a.1 < b.1 :=
    List.pairwise_map.mpr (pairwise_name_sorted hnodup)
  have hes : (tableOf (sorted es)).Pairwise fun a b => a.1 < b.1 :=
    List.pairwise_map.mpr (pairwise_name_sorted ((Definition.nodup_iff_of_perm h).mpr hnodup))
  exact hperm.eq_of_pairwise (fun a b _ _ hab hba => absurd hba (String.lt_asymm hab)) hes hds

theorem map_node_find? (g : Grammar) (name : String) :
    (g.find? name).map Definition.node = (tableOf g.definitions).find? name := by
  unfold find? tableOf SymbolTable.find?
  induction g.definitions with
  | nil => rfl
  | cons d ds ih =>
    rw [List.map_cons, List.lookup_cons, List.find?_cons, Bool.beq_comm]
    cases name == d.name with
    | true => rfl
    | false => exact ih

theorem ofText_of_readAll (h : Definition.readAll text = .ok ds) : ofText text path settings =
    ((Matcher.ofTable (tableOf (sorted ds)) settings.maxDepth).map fun m =>
      (⟨path, sorted ds, m⟩ : Grammar)).mapError (undefinedDiagnostic path) := by
  simp only [ofText, h, ofDefinitions, bind, Except.bind, Except.mapError]
  cases Matcher.ofTable (tableOf (sorted ds)) settings.maxDepth <;> rfl

/-- Two grammars that differ in nothing but the lines of their definitions. -/
structure SameButLines (g g' : Grammar) : Prop where
  path : g.path = g'.path
  names : g.names = g'.names
  node : ∀ name, (g.find? name).map Definition.node = (g'.find? name).map Definition.node
  run : ∀ stack symbol text, g.run stack symbol text = g'.run stack symbol text

theorem sameButLines_of_tableOf_eq {g g' : Grammar} (hpath : g.path = g'.path)
    (htable : tableOf g.definitions = tableOf g'.definitions) (hmatcher : g.matcher = g'.matcher) :
    SameButLines g g' where
  path := hpath
  names := Definition.map_name_of_content htable
  node name := by rw [map_node_find?, map_node_find?, htable]
  run stack symbol text := by rw [run, run, hmatcher]

/-- Texts that each begin with a definition, or are blank, are joined by line feeds in two orders.
The one joined text can be read exactly if the other can. Then either both lack the same names, or
both give a grammar, with the symbols in increasing order. The two grammars differ only in the lines
of their definitions, which are in each of the texts the lines where the symbols are defined. -/
theorem ofText_perm (texts others : List String) (hperm : texts.Perm others)
    (hstarts : ∀ text ∈ texts, ∀ first, (Line.ofText text).head? = some first → first.Starts)
    (path : Option String) (settings : Settings) :
    ((∃ ds, Definition.readAll ("\n".intercalate texts) = .ok ds) ↔
      ∃ es, Definition.readAll ("\n".intercalate others) = .ok es) ∧
    ((∃ ds, Definition.readAll ("\n".intercalate texts) = .ok ds) →
      (∃ names, ofText ("\n".intercalate texts) path settings =
          .error (undefinedDiagnostic path names) ∧
        ofText ("\n".intercalate others) path settings =
          .error (undefinedDiagnostic path names)) ∨
      ∃ g g', ofText ("\n".intercalate texts) path settings = .ok g ∧
        ofText ("\n".intercalate others) path settings = .ok g' ∧
        g.names.Pairwise (· < ·) ∧ SameButLines g g' ∧
        (∀ d ∈ g.definitions, d.HasHeaderIn ("\n".intercalate texts)) ∧
        ∀ d ∈ g'.definitions, d.HasHeaderIn ("\n".intercalate others)) := by
  have hothers : ∀ text ∈ others, ∀ first, (Line.ofText text).head? = some first → first.Starts :=
    fun text ht => hstarts text (hperm.mem_iff.mpr ht)
  refine ⟨⟨?_, ?_⟩, ?_⟩
  · rintro ⟨ds, hds⟩
    obtain ⟨es, hes, -⟩ := Definition.readAll_perm hperm hstarts hds
    exact ⟨es, hes⟩
  · rintro ⟨es, hes⟩
    obtain ⟨ds, hds, -⟩ := Definition.readAll_perm hperm.symm hothers hes
    exact ⟨ds, hds⟩
  · rintro ⟨ds, hds⟩
    obtain ⟨es, hes, hcontent⟩ := Definition.readAll_perm hperm hstarts hds
    have hnodup := Definition.nodup_of_readAll hds
    have htable := tableOf_sorted_of_perm hnodup hcontent
    rw [ofText_of_readAll hds, ofText_of_readAll hes, htable]
    cases Matcher.ofTable (tableOf (sorted ds)) settings.maxDepth with
    | error names => exact .inl ⟨names, rfl, rfl⟩
    | ok m =>
      refine .inr ⟨_, _, rfl, rfl, ?_, sameButLines_of_tableOf_eq rfl htable.symm rfl, ?_, ?_⟩
      · exact List.pairwise_map.mpr (pairwise_name_sorted hnodup)
      · exact fun d hd => Definition.hasHeaderIn_of_readAll hds ((sorted_perm ds).mem_iff.mp hd)
      · exact fun d hd => Definition.hasHeaderIn_of_readAll hes ((sorted_perm es).mem_iff.mp hd)

/-- A definition in two lines changes places with the one that it refers to. -/
theorem ofText_swapped : ∃ g g', ofText (combine "<b> ::= x" ["<a> ::= <b>\n| y"]) = .ok g ∧
    ofText (combine "<a> ::= <b>\n| y" ["<b> ::= x"]) = .ok g' ∧ g.names = ["a", "b"] ∧
    SameButLines g g' ∧
    (g.find? "b").map Definition.line = some 1 ∧ (g'.find? "b").map Definition.line = some 3 := by
  have hb : Line.ofText "<b> ::= x" =
      [⟨1, [⟨"<b>", false⟩, ⟨"::=", false⟩, ⟨"x", false⟩]⟩] := by decide
  have ha : Line.ofText "<a> ::= <b>\n| y" =
      [⟨1, [⟨"<a>", false⟩, ⟨"::=", false⟩, ⟨"<b>", false⟩]⟩,
        ⟨2, [⟨"|", false⟩, ⟨"y", false⟩]⟩] := by decide
  have hstarts : ∀ text ∈ ["<b> ::= x", "<a> ::= <b>\n| y"],
      ∀ first, (Line.ofText text).head? = some first → first.Starts := by
    rw [List.forall_mem_cons, List.forall_mem_singleton, hb, ha]
    constructor
    all_goals
      rintro _ ⟨⟩
      exact ⟨_, _, rfl⟩
  let x : Node := .sequence [.run [.literal "x"]]
  let y : Node := .alternation (.sequence [.run [.reference "b"]]) (.sequence [.run [.literal "y"]])
  have hread : Definition.readAll (combine "<b> ::= x" ["<a> ::= <b>\n| y"]) =
      .ok [⟨"b", x, 1⟩, ⟨"a", y, 2⟩] := by
    rw [Definition.readAll, Reading.ofText, Line.ofText_combine, hb, ha]
    cbv
  have hread' : Definition.readAll (combine "<a> ::= <b>\n| y" ["<b> ::= x"]) =
      .ok [⟨"a", y, 1⟩, ⟨"b", x, 3⟩] := by
    rw [Definition.readAll, Reading.ofText, Line.ofText_combine, hb, ha]
    cbv
  obtain ⟨m, hm⟩ : ∃ m, Matcher.ofTable (tableOf [⟨"a", y, 2⟩, ⟨"b", x, 1⟩]) = .ok m :=
    ⟨_, dif_pos (by decide)⟩
  have hg : ofText (combine "<b> ::= x" ["<a> ::= <b>\n| y"]) =
      .ok ⟨none, [⟨"a", y, 2⟩, ⟨"b", x, 1⟩], m⟩ := by
    have hsorted : sorted [⟨"b", x, 1⟩, ⟨"a", y, 2⟩] = [⟨"a", y, 2⟩, ⟨"b", x, 1⟩] := by cbv
    rw [ofText_of_readAll hread, hsorted, hm]
    rfl
  have hg' : ofText (combine "<a> ::= <b>\n| y" ["<b> ::= x"]) =
      .ok ⟨none, [⟨"a", y, 1⟩, ⟨"b", x, 3⟩], m⟩ := by
    have hsorted : sorted [⟨"a", y, 1⟩, ⟨"b", x, 3⟩] = [⟨"a", y, 1⟩, ⟨"b", x, 3⟩] := by cbv
    have htable : tableOf [⟨"a", y, 1⟩, ⟨"b", x, 3⟩] = tableOf [⟨"a", y, 2⟩, ⟨"b", x, 1⟩] := rfl
    rw [ofText_of_readAll hread', hsorted, htable, hm]
    rfl
  obtain ⟨-, h⟩ := ofText_perm _ _ (.swap ..) hstarts none {}
  rcases h ⟨_, hread⟩ with ⟨names, herror, -⟩ | ⟨g, g', hfound, hfound', -, hsame, -⟩
  · cases hg.symm.trans herror
  · obtain rfl := Except.ok.inj (hg.symm.trans hfound)
    obtain rfl := Except.ok.inj (hg'.symm.trans hfound')
    exact ⟨_, _, hfound, hfound', rfl, hsame, rfl, rfl⟩

end Grammar

end BackusNaur

import BackusNaur.Proofs.Reading.Parsing

/-!
# Reading undoes writing

`Definition.readAll_definitionLines`: the text of well-formed definitions, one on a line, is read
back as these definitions.
-/

namespace BackusNaur

-- ---------------------------------------------------------------------------
-- Lines
-- ---------------------------------------------------------------------------

def EndsSolid (text : List Char) : Prop := ∃ c, text.getLast? = some c ∧ Text.isBlank c = false

theorem EndsSolid.append (h : EndsSolid b) (a : List Char) : EndsSolid (a ++ b) := by
  obtain ⟨c, hc, hs⟩ := h
  exact ⟨c, by rw [List.getLast?_append, hc]; rfl, hs⟩

theorem EndsSolid.ne_nil (h : EndsSolid text) : text ≠ [] := by
  rintro rfl
  obtain ⟨c, hc, -⟩ := h
  cases hc

theorem endsSolid_intercalate {α : Type} {render : α → String} {xs : List α} (hne : xs ≠ [])
    (h : ∀ x ∈ xs, EndsSolid (render x).toList) :
    EndsSolid (" ".intercalate (xs.map render)).toList := by
  induction xs with
  | nil => exact absurd rfl hne
  | cons x rest ih =>
    cases rest with
    | nil => simpa using h x (.head _)
    | cons next rest =>
      have hr : (" ".intercalate ((x :: next :: rest).map render)).toList =
          ((render x).toList ++ [' ']) ++ (" ".intercalate ((next :: rest).map render)).toList := by
        simp
      rw [hr]
      exact (ih (by simp) fun y hy => h y (.tail _ hy)).append _

theorem Item.endsSolid (item : Item) : EndsSolid item.render.toList := by
  cases item with
  | literal text =>
    show EndsSolid ("\"" ++ text ++ "\"").toList
    rw [String.toList_append]
    exact EndsSolid.append ⟨'"', rfl, by decide⟩ _
  | reference name =>
    show EndsSolid ("<" ++ name ++ ">").toList
    rw [String.toList_append]
    exact EndsSolid.append ⟨'>', rfl, by decide⟩ _

theorem Segment.WellFormed.endsSolid {part : Segment} (h : part.WellFormed) :
    EndsSolid part.render.toList := by
  cases part with
  | run items => exact endsSolid_intercalate (h.1 rfl) fun item _ => item.endsSolid
  | group items quantifier =>
    rw [render, String.toList_append]
    refine EndsSolid.append ?_ _
    cases quantifier <;> exact ⟨_, rfl, by decide⟩

theorem Node.WellFormed.endsSolid {node : Node} (h : node.WellFormed) :
    EndsSolid node.render.toList := by
  induction node with
  | alternation left right _ ihr =>
    rw [render, String.toList_append]
    exact (ihr h.2.2).append _
  | sequence parts =>
    rw [render_sequence h]
    exact endsSolid_intercalate h.1 fun part hm => (h.2.1 part hm).endsSolid

theorem endsSolid_definitionLine (name : String) {node : Node} (h : node.WellFormed) :
    EndsSolid (definitionLine name node).toList := by
  rw [toList_definitionLine, List.append_cons, ← List.append_assoc, List.append_cons]
  exact h.endsSolid.append _

theorem trim_definitionLine (name : String) {node : Node} (h : node.WellFormed) :
    Text.trim (definitionLine name node).toList = (definitionLine name node).toList := by
  refine Text.trim_eq_self ?_ ?_
  · intro c hc
    rw [toList_definitionLine, toList_ofName] at hc
    cases hc
    decide
  · intro c hc
    obtain ⟨d, hd, hs⟩ := endsSolid_definitionLine name h
    cases hd.symm.trans hc
    exact hs

theorem lines_definitionLines {definitions : List (String × Node)} (hne : definitions ≠ [])
    (h : ∀ d ∈ definitions, Writable d.1 ∧ d.2.WellFormed) :
    Text.lines (definitionLines definitions).toList =
      definitions.map fun d => (definitionLine d.1 d.2).toList := by
  induction definitions with
  | nil => exact absurd rfl hne
  | cons d rest ih =>
    obtain ⟨hname, hnode⟩ := h d (.head _)
    have hd := (lexes_definitionLine hname hnode).no_break
    cases rest with
    | nil =>
      have hl : definitionLines [d] = definitionLine d.1 d.2 := by simp [definitionLines]
      rw [hl, Text.lines_of_not_break (endsSolid_definitionLine d.1 hnode).ne_nil hd]
      rfl
    | cons next rest =>
      have hl : (definitionLines (d :: next :: rest)).toList =
          (definitionLine d.1 d.2).toList ++ '\n' :: (definitionLines (next :: rest)).toList := by
        simp [definitionLines]
      rw [hl, Text.lines_append_newline hd, ih (by simp) fun e he => h e (.tail _ he)]
      rfl

def Definition.toLine (d : Definition) : Line :=
  ⟨d.line, .ofName d.name :: ⟨Token.define, false⟩ :: d.node.tokens⟩

def numbered (definitions : List (String × Node)) : List Definition :=
  (definitions.zipIdx 1).map fun (d, line) => ⟨d.1, d.2, line⟩

theorem map_numbered (definitions : List (String × Node)) :
    (numbered definitions).map (fun d => (d.name, d.node)) = definitions := by
  simp [numbered, Function.comp_def]

theorem Line.ofText_definitionLines {definitions : List (String × Node)} (hne : definitions ≠ [])
    (h : ∀ d ∈ definitions, Writable d.1 ∧ d.2.WellFormed) :
    Line.ofText (definitionLines definitions) = (numbered definitions).map Definition.toLine := by
  rw [Line.ofText, lines_definitionLines hne h, List.zipIdx_map, List.filterMap_map, numbered,
    List.map_map, ← List.filterMap_eq_map]
  refine List.filterMap_congr fun ⟨d, number⟩ hm => ?_
  obtain ⟨hname, hnode⟩ := h d (List.fst_mem_of_mem_zipIdx hm)
  have hne : (definitionLine d.1 d.2).toList.isEmpty = false :=
    List.isEmpty_eq_false_iff.mpr (endsSolid_definitionLine d.1 hnode).ne_nil
  simp only [Function.comp_apply, Prod.map, trim_definitionLine d.1 hnode, hne,
    (lexes_definitionLine hname hnode).ofLine_eq]
  rfl

-- ---------------------------------------------------------------------------
-- Blocks
-- ---------------------------------------------------------------------------

def Definition.toBlock (d : Definition) : Block := ⟨d.line, .ofName d.name, d.node.tokens⟩

theorem Block.cut_toLine (definitions : List Definition) :
    cut (definitions.map Definition.toLine) = ([], definitions.map Definition.toBlock) := by
  induction definitions with
  | nil => rfl
  | cons d rest ih =>
    have hd : ofLine? d.toLine = some d.toBlock := rfl
    rw [List.map_cons, cut, ih, hd]
    simp

theorem Node.isOperator_of_mem_tokens {node : Node} (h : name ∉ node.references) :
    ∀ t ∈ node.tokens, t.isOperator (Token.ofName name).text = false := by
  induction node with
  | alternation left right ihl ihr =>
    simp only [references, List.mem_append, not_or] at h
    simp only [tokens, List.forall_mem_append, List.forall_mem_cons]
    refine ⟨ihl h.1, ?_, ihr h.2⟩
    simpa [Token.isOperator] using (Token.text_ofName_ne (by decide)).symm
  | sequence parts =>
    intro t ht
    obtain ⟨part, hm, ht⟩ := List.mem_flatMap.mp ht
    refine Segment.isOperator_of_mem_tokens ht (fun item hi => ?_) fun hop => ?_
    · cases item with
      | literal text => rfl
      | reference other =>
        have hne : other ≠ name := by
          rintro rfl
          exact h (List.mem_flatMap.mpr ⟨part, hm, List.mem_filterMap.mpr ⟨_, hi, rfl⟩⟩)
        simpa [Item.token, Token.isOperator] using fun _ he => hne (Token.text_ofName_inj.mp he)
    · have hmarks : ∀ op ∈ ["\x7b", "\x7d", "*", "+", "?"], op.toList.head? ≠ some '<' := by decide
      exact Token.text_ofName_ne (hmarks _ hop) rfl

theorem Block.define_toBlock {d : Definition} {known : List Definition} (hnode : d.node.WellFormed)
    (hself : d.name ∉ d.node.references) (hnew : d.name ∉ known.map Definition.name) :
    d.toBlock.define known = .ok d := by
  have hfind : known.find? (·.name == d.name) = none := by
    refine List.find?_eq_none.mpr fun other hm => ?_
    simpa using fun he => hnew (List.mem_map.mpr ⟨other, hm, he⟩)
  have hbody : d.node.tokens.isEmpty = false :=
    List.isEmpty_eq_false_iff.mpr (Node.tokens_ne_nil hnode)
  have hany : d.node.tokens.any (·.isOperator (Token.ofName d.name).text) = false := by
    rw [List.any_eq_false]
    exact fun t ht => by simp [Node.isOperator_of_mem_tokens hself t ht]
  simp only [define, Definition.toBlock, Token.symbol?_ofName, hfind, hbody, hany,
    Node.ofTokens_tokens hnode]
  rfl

theorem Reading.ofBlocks_toBlock {known rest : List Definition}
    (hd : ((known ++ rest).map Definition.name).Nodup)
    (h : ∀ d ∈ rest, d.node.WellFormed ∧ d.name ∉ d.node.references) :
    ofBlocks known (rest.map Definition.toBlock) = ⟨known ++ rest, none⟩ := by
  induction rest generalizing known with
  | nil => rw [List.map_nil, ofBlocks, List.append_nil]
  | cons d rest ih =>
    obtain ⟨hnode, hself⟩ := h d (.head _)
    have hnew : d.name ∉ known.map Definition.name := by
      rw [List.map_append] at hd
      exact fun hm => (List.nodup_append.mp hd).2.2 _ hm _ (.head _) rfl
    rw [List.append_cons] at hd
    rw [List.map_cons, ofBlocks, Block.define_toBlock hnode hself hnew, List.append_cons]
    exact ih hd fun e he => h e (.tail _ he)

/-- Reading undoes writing: well-formed definitions come back as they were, with the numbers of
their lines. -/
theorem Definition.readAll_definitionLines (definitions : List (String × Node))
    (hne : definitions ≠ []) (h : WellFormed definitions) :
    Definition.readAll (definitionLines definitions) = .ok (numbered definitions) := by
  have hmem : ∀ d ∈ numbered definitions, (d.name, d.node) ∈ definitions := by
    intro d hd
    rw [← map_numbered definitions]
    exact List.mem_map.mpr ⟨d, hd, rfl⟩
  have hnames : (([] ++ numbered definitions).map Definition.name).Nodup := by
    have hd := h.distinct
    rw [← map_numbered definitions, List.map_map] at hd
    exact hd
  have hread := Reading.ofBlocks_toBlock hnames fun d hd =>
    ⟨h.nodes _ (hmem d hd), h.no_self_reference _ (hmem d hd)⟩
  rw [readAll, Reading.ofText,
    Line.ofText_definitionLines hne fun d hd => ⟨h.names d hd, h.nodes d hd⟩, Reading.ofLines,
    Block.cut_toLine]
  cases hn : numbered definitions with
  | nil =>
    refine absurd ?_ hne
    rw [← map_numbered definitions, hn]
    rfl
  | cons first rest =>
    rw [hn] at hread
    exact congrArg Reading.result hread

def oddDefinitions : List (String × Node) :=
  [("a|_", .alternation (.sequence [.run [.literal "::=", .reference "b"], .group [] .optional])
      (.sequence [.run [.literal ""]])),
    ("b", .sequence [.group [.literal "<x>", .literal "| \x7b"] .oneOrMore])]

theorem wellFormed_oddDefinitions : WellFormed oddDefinitions := by
  have ha : Writable "a|_" := ⟨by simp; decide, by decide, by simp, by
    simp [List.cons_eq_append_iff, joinsBar]⟩
  have hb : Writable "b" := ⟨by simp; decide, by decide, by simp, by simp [List.cons_eq_append_iff]⟩
  refine ⟨by decide, by simp [oddDefinitions, ha, hb], ?_, by decide⟩
  simp [oddDefinitions, Node.WellFormed, Segment.WellFormed, Segment.isRun, Segment.items,
    Item.WellFormed, hb]
  decide

theorem readAll_oddDefinitions : WellFormed oddDefinitions ∧
    Definition.readAll
      "<a|_> ::= \"::=\" <b> \x7b  \x7d? | \"\"\n<b> ::= \x7b \"<x>\" \"| \x7b\" \x7d+" =
        .ok (numbered oddDefinitions) := by
  refine ⟨wellFormed_oddDefinitions, ?_⟩
  exact Definition.readAll_definitionLines oddDefinitions (by decide) wellFormed_oddDefinitions

end BackusNaur

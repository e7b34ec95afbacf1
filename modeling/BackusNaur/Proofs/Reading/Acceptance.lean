import BackusNaur.Proofs.Reading.Syntax
import Mathlib.Data.List.Nodup

/-!
# Which texts are read

`Definition.readAll_iff_written`: a text is read exactly if its lines can be cut into blocks, one
from each line that starts a definition, and every block writes a definition of a symbol of its
own; and what is read are these definitions, in order.
-/

namespace BackusNaur

-- ---------------------------------------------------------------------------
-- Blocks
-- ---------------------------------------------------------------------------

/-- The line starts a definition: its second token is the unquoted `::=`. -/
def Line.Starts (line : Line) : Prop :=
  ∃ head body, line.tokens = head :: ⟨Token.define, false⟩ :: body

namespace Block

/-- Lines cut into blocks, one from each line that starts a definition. -/
inductive Cut : List Line → List Block → Prop
  | none : Cut [] []
  | block {line : Line} {more rest : List Line} {head : Token} {body : List Token}
    {blocks : List Block} (hline : line.tokens = head :: ⟨Token.define, false⟩ :: body)
    (hmore : ∀ l ∈ more, ¬ l.Starts) (hrest : Cut rest blocks) :
    Cut (line :: more ++ rest) (⟨line.number, head, body ++ more.flatMap Line.tokens⟩ :: blocks)

variable {line : Line} {lines more rest : List Line} {head : Token} {body : List Token}
  {b : Block} {blocks : List Block}

theorem ofLine?_eq_some_iff : ofLine? line = some b ↔
    line.tokens = b.head :: ⟨Token.define, false⟩ :: b.body ∧ line.number = b.line := by
  unfold ofLine?
  split
  · rename_i head define body ht
    rw [ht]
    cases b
    simp [Token.isOperator_iff, and_assoc, and_comm]
  · rename_i hshape
    simpa using fun h => absurd h (hshape _ _ _)

theorem ofLine?_eq_none_iff : ofLine? line = none ↔ ¬ line.Starts := by
  rw [Option.eq_none_iff_forall_ne_some]
  constructor
  · rintro h ⟨head, body, ht⟩
    exact h ⟨line.number, head, body⟩ (ofLine?_eq_some_iff.mpr ⟨ht, rfl⟩)
  · intro h b hb
    exact h ⟨_, _, (ofLine?_eq_some_iff.mp hb).1⟩

theorem cut_cons_of_starts (h : line.tokens = head :: ⟨Token.define, false⟩ :: body) :
    cut (line :: rest) =
      ([], ⟨line.number, head, body ++ (cut rest).1.flatMap Line.tokens⟩ :: (cut rest).2) := by
  have hb : ofLine? line = some ⟨line.number, head, body⟩ := ofLine?_eq_some_iff.mpr ⟨h, rfl⟩
  rw [cut, hb]

theorem cut_cons_of_not_starts (h : ¬ line.Starts) :
    cut (line :: rest) = (line :: (cut rest).1, (cut rest).2) := by
  rw [cut, ofLine?_eq_none_iff.mpr h]

theorem cut_append_of_not_starts (h : ∀ l ∈ more, ¬ l.Starts) :
    cut (more ++ rest) = (more ++ (cut rest).1, (cut rest).2) := by
  induction more with
  | nil => rfl
  | cons line more ih =>
    rw [List.cons_append, cut_cons_of_not_starts (h line (.head _)),
      ih fun l hl => h l (.tail _ hl)]
    rfl

theorem Cut.cut_eq (h : Cut lines blocks) :
    cut lines = ([], blocks) := by
  induction h with
  | none => rfl
  | block hline hmore _ ih =>
    rw [List.cons_append, cut_cons_of_starts hline, cut_append_of_not_starts hmore, ih,
      List.append_nil]

/-- What is left of lines without the loose ones at their start is cut into blocks. -/
theorem exists_cut (lines : List Line) : ∃ rest, lines = (cut lines).1 ++ rest ∧
    (∀ l ∈ (cut lines).1, ¬ l.Starts) ∧ Cut rest (cut lines).2 := by
  induction lines with
  | nil => exact ⟨[], rfl, nofun, .none⟩
  | cons line lines ih =>
    obtain ⟨rest, hlines, hloose, hrest⟩ := ih
    by_cases hs : line.Starts
    · obtain ⟨head, body, hline⟩ := hs
      refine ⟨line :: lines, ?_, ?_, ?_⟩
      · rw [cut_cons_of_starts hline]
        rfl
      · rw [cut_cons_of_starts hline]
        nofun
      · have hcut := Cut.block hline hloose hrest
        rw [List.cons_append, ← hlines] at hcut
        rwa [cut_cons_of_starts hline]
    · rw [cut_cons_of_not_starts hs]
      exact ⟨rest, congrArg (line :: ·) hlines, List.forall_mem_cons.mpr ⟨hs, hloose⟩, hrest⟩

theorem Cut.ne_nil_iff (h : Cut lines blocks) :
    lines ≠ [] ↔ ∃ first, lines.head? = some first ∧ first.Starts := by
  cases h with
  | none => simp
  | block hline => exact ⟨fun _ => ⟨_, rfl, _, _, hline⟩, fun _ => List.cons_ne_nil _ _⟩

theorem cut_eq_iff :
    cut lines = ([], blocks) ↔ Cut lines blocks := by
  constructor
  · intro h
    obtain ⟨rest, hlines, -, hrest⟩ := exists_cut lines
    rw [h] at hlines hrest
    rwa [hlines]
  · exact Cut.cut_eq

end Block

-- ---------------------------------------------------------------------------
-- Definitions
-- ---------------------------------------------------------------------------

namespace Block

/-- The block writes the definition, whatever other blocks write. -/
structure Written (b : Block) (d : Definition) : Prop where
  head : b.head = .ofName d.name
  line : d.line = b.line
  body : b.body ≠ []
  no_self : b.head ∉ b.body
  node : Node.Written b.body d.node

/-- What a block must be to write a definition: it has the head of one and a body that does not
refer to the symbol, and each of its alternatives can be cut into runs and groups. -/
structure Acceptable (b : Block) : Prop where
  head : ∃ name, b.head = .ofName name
  body : b.body ≠ []
  no_self : b.head ∉ b.body
  alternatives : ∀ alternative ∈ pieces Node.isBar b.body,
    alternative ≠ [] ∧ ∃ parts, Segment.Written alternative parts

variable {b : Block} {d : Definition} {known : List Definition}

theorem acceptable_iff : b.Acceptable ↔ ∃ d, b.Written d := by
  constructor
  · rintro ⟨⟨name, hhead⟩, hbody, hself, halts⟩
    obtain ⟨node, hnode⟩ := Node.exists_written_iff.mpr halts
    exact ⟨⟨name, node, b.line⟩, hhead, rfl, hbody, hself, hnode⟩
  · rintro ⟨d, hhead, -, hbody, hself, hnode⟩
    exact ⟨⟨_, hhead⟩, hbody, hself, Node.exists_written_iff.mp ⟨_, hnode⟩⟩

theorem map_head_eq {blocks : List Block} {ds : List Definition}
    (h : List.Forall₂ Written blocks ds) :
    blocks.map Block.head = (ds.map Definition.name).map Token.ofName := by
  rw [List.map_map, ← List.forall₂_eq_eq_eq, List.forall₂_map_left_iff, List.forall₂_map_right_iff]
  exact h.imp fun _ _ hb => hb.head

theorem nodup_head_iff {blocks : List Block} {ds : List Definition}
    (h : List.Forall₂ Written blocks ds) :
    (blocks.map Block.head).Nodup ↔ (ds.map Definition.name).Nodup := by
  rw [map_head_eq h, List.nodup_map_iff Token.ofName_injective]

theorem define_eq (b : Block) (known : List Definition) : b.define known =
    match b.head.symbol? with
    | none => .error (.headNotSymbol b.head.text)
    | some name => match known.find? (·.name == name) with
      | some first => .error (.duplicateSymbol name (some first.line))
      | none =>
        if b.body.isEmpty then .error (.emptyBody name)
        else if b.body.any (·.isOperator b.head.text) then .error (.selfReference name)
        else (Node.ofTokens b.body).map (⟨name, ·, b.line⟩) := by
  unfold define
  cases b.head.symbol? with
  | none => rfl
  | some name =>
    dsimp only
    cases known.find? (·.name == name) with
    | some first => rfl
    | none =>
      dsimp only
      split
      · rfl
      · split
        · rfl
        · cases Node.ofTokens b.body <;> rfl

theorem find?_eq_none_iff {name : String} :
    known.find? (·.name == name) = none ↔ name ∉ known.map Definition.name := by
  simp [List.find?_eq_none]

theorem find?_eq_some_iff {name : String} (hnodup : (known.map Definition.name).Nodup) :
    known.find? (·.name == name) = some d ↔ d ∈ known ∧ d.name = name := by
  constructor
  · intro h
    exact ⟨List.mem_of_find?_eq_some h, by simpa using List.find?_some h⟩
  · rintro ⟨hd, rfl⟩
    cases hfind : known.find? (·.name == d.name) with
    | none => exact absurd (List.mem_map_of_mem hd) (find?_eq_none_iff.mp hfind)
    | some found =>
      have hname : found.name = d.name := by simpa using List.find?_some hfind
      have hmem : found ∈ known := List.mem_of_find?_eq_some hfind
      rw [List.inj_on_of_nodup_map hnodup hmem hd hname]

theorem any_isOperator_head (h : b.head = .ofName name) :
    b.body.any (·.isOperator b.head.text) = true ↔ b.head ∈ b.body := by
  simp only [List.any_eq_true, Token.isOperator_iff]
  rw [h]
  exact exists_eq_right

theorem define_eq_ok_iff : b.define known = .ok d ↔
    d.name ∉ known.map Definition.name ∧ b.Written d := by
  rw [define_eq]
  constructor
  · intro h
    split at h
    · cases h
    · rename_i name hname
      have hhead := Token.symbol?_eq_some_iff.mp hname
      repeat' split at h
      all_goals first | cases h | skip
      rename_i hfind hbody hself
      obtain ⟨node, hnode, rfl⟩ := exceptMap_eq_ok.mp h
      exact ⟨find?_eq_none_iff.mp hfind, hhead, rfl, by simpa using hbody,
        fun hm => hself ((any_isOperator_head hhead).mpr hm), Node.ofTokens_eq_ok_iff.mp hnode⟩
  · rintro ⟨hnew, hhead, hline, hbody, hself, hnode⟩
    have hname : b.head.symbol? = some d.name := Token.symbol?_eq_some_iff.mpr hhead
    have hany : ¬ b.body.any (·.isOperator b.head.text) = true := fun h =>
      hself ((any_isOperator_head hhead).mp h)
    rw [hname]
    dsimp only
    rw [find?_eq_none_iff.mpr hnew]
    dsimp only
    rw [if_neg (by simpa using hbody), if_neg hany, Node.ofTokens_eq_ok_iff.mpr hnode, ← hline]
    rfl

end Block

-- ---------------------------------------------------------------------------
-- Texts
-- ---------------------------------------------------------------------------

namespace Reading

variable {lines : List Line} {blocks : List Block} {known ds : List Definition}

theorem nodup_concat_iff {d : Definition} : ((known ++ [d]).map Definition.name).Nodup ↔
    d.name ∉ known.map Definition.name ∧ (known.map Definition.name).Nodup := by
  rw [List.map_append, ← List.nodup_cons]
  exact (List.perm_append_singleton ..).nodup_iff

theorem result_ofBlocks_eq_ok_iff (hk : (known.map Definition.name).Nodup) :
    (ofBlocks known blocks).result = .ok ds ↔
      ∃ new, ds = known ++ new ∧ (ds.map Definition.name).Nodup ∧
        List.Forall₂ Block.Written blocks new := by
  induction blocks generalizing known with
  | nil =>
    constructor
    · intro h
      obtain rfl : known = ds := Except.ok.inj h
      exact ⟨[], (List.append_nil _).symm, hk, .nil⟩
    · rintro ⟨_, rfl, -, _ | _⟩
      rw [List.append_nil]
      rfl
  | cons b blocks ih =>
    rw [ofBlocks]
    constructor
    · intro h
      split at h
      · cases h
      · rename_i d hd
        obtain ⟨hnew, hb⟩ := Block.define_eq_ok_iff.mp hd
        obtain ⟨new, hds, hnodup, hw⟩ := (ih (nodup_concat_iff.mpr ⟨hnew, hk⟩)).mp h
        exact ⟨d :: new, by rw [hds, List.append_assoc]; rfl, hnodup, .cons hb hw⟩
    · rintro ⟨_, hds, hnodup, _ | ⟨hb, hw⟩⟩
      rename_i d new
      rw [List.append_cons] at hds
      have hd : ((known ++ [d]).map Definition.name).Nodup := by
        rw [hds, List.map_append] at hnodup
        exact (List.nodup_append.mp hnodup).1
      rw [Block.define_eq_ok_iff.mpr ⟨(nodup_concat_iff.mp hd).1, hb⟩]
      exact (ih hd).mpr ⟨new, hds, hnodup, hw⟩

theorem written_of_result (h : (ofBlocks [] blocks).result = .ok ds) :
    List.Forall₂ Block.Written blocks ds ∧ (ds.map Definition.name).Nodup := by
  obtain ⟨new, rfl, hnodup, hw⟩ := (result_ofBlocks_eq_ok_iff (by simp)).mp h
  exact ⟨hw, hnodup⟩

theorem result_of_written (hw : List.Forall₂ Block.Written blocks ds)
    (hnodup : (ds.map Definition.name).Nodup) : (ofBlocks [] blocks).result = .ok ds := by
  have hnone : (([] : List Definition).map Definition.name).Nodup := List.nodup_nil
  exact (result_ofBlocks_eq_ok_iff hnone).mpr ⟨ds, rfl, hnodup, hw⟩

theorem result_ofLines_eq_ok_iff : (ofLines lines).result = .ok ds ↔
    lines ≠ [] ∧ ∃ blocks, Block.Cut lines blocks ∧ (ds.map Definition.name).Nodup ∧
      List.Forall₂ Block.Written blocks ds := by
  have hnone : (([] : List Definition).map Definition.name).Nodup := List.nodup_nil
  constructor
  · intro h
    rw [ofLines] at h
    split at h
    · cases h
    · cases h
    · rename_i blocks hne hcut
      have hc := Block.cut_eq_iff.mp hcut
      obtain ⟨_, rfl, hnodup, hw⟩ := (result_ofBlocks_eq_ok_iff hnone).mp h
      refine ⟨?_, blocks, hc, hnodup, hw⟩
      rintro rfl
      cases hc
      exact hne rfl
  · rintro ⟨hne, blocks, hc, hnodup, hw⟩
    have hread := (result_ofBlocks_eq_ok_iff hnone).mpr ⟨ds, rfl, hnodup, hw⟩
    rw [ofLines, hc.cut_eq]
    cases hc with
    | none => exact absurd rfl hne
    | block => exact hread

end Reading

/-- A text is read exactly if it has a line that is not blank, the first such line starts a
definition, and each of the blocks that its lines make can be a definition of a symbol of its own.
Then the definitions that are read are the only ones that the blocks write. -/
theorem Definition.readAll_iff_written (text : String) :
    ((∃ ds, readAll text = .ok ds) ↔
      (∃ first, (Line.ofText text).head? = some first ∧ first.Starts) ∧
        ∃ blocks, Block.Cut (Line.ofText text) blocks ∧ (blocks.map Block.head).Nodup ∧
          ∀ b ∈ blocks, b.Acceptable) ∧
      ∀ ds, readAll text = .ok ds ↔
        (∃ first, (Line.ofText text).head? = some first ∧ first.Starts) ∧
          ∃ blocks, Block.Cut (Line.ofText text) blocks ∧ (ds.map Definition.name).Nodup ∧
            List.Forall₂ Block.Written blocks ds := by
  have hread : ∀ ds, readAll text = .ok ds ↔
      (∃ first, (Line.ofText text).head? = some first ∧ first.Starts) ∧
        ∃ blocks, Block.Cut (Line.ofText text) blocks ∧ (ds.map Definition.name).Nodup ∧
          List.Forall₂ Block.Written blocks ds := by
    intro ds
    rw [readAll, Reading.ofText, Reading.result_ofLines_eq_ok_iff]
    constructor
    · rintro ⟨hne, blocks, hc, hw⟩
      exact ⟨hc.ne_nil_iff.mp hne, blocks, hc, hw⟩
    · rintro ⟨hfirst, blocks, hc, hw⟩
      exact ⟨hc.ne_nil_iff.mpr hfirst, blocks, hc, hw⟩
  refine ⟨?_, hread⟩
  simp only [hread, Block.acceptable_iff, ← exists_forall₂_iff]
  constructor
  · rintro ⟨ds, hfirst, blocks, hc, hnodup, hw⟩
    exact ⟨hfirst, blocks, hc, (Block.nodup_head_iff hw).mpr hnodup, ds, hw⟩
  · rintro ⟨hfirst, blocks, hc, hnodup, ds, hw⟩
    exact ⟨ds, hfirst, blocks, hc, (Block.nodup_head_iff hw).mp hnodup, hw⟩

end BackusNaur

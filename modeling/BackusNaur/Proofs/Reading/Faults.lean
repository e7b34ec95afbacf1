import BackusNaur.Proofs.Reading.Joining

/-!
# Which fault is reported

A text can have many faults, and one is reported: that of its first block that has one, where a
block is judged by what it is and by the heads of the blocks before it. Of the faults of one block
the first in a fixed order counts, from the head to the right-hand side.

`Definition.readAll_eq_error_iff`: the fault of a text with the family that its diagnostic belongs
to, said without the reader.
-/

namespace BackusNaur

variable {topic : Topic} {fault : DefinitionFault}

-- ---------------------------------------------------------------------------
-- Blocks
-- ---------------------------------------------------------------------------

namespace Block

variable {b : Block} {earlier : List Block} {known : List Definition} {name : String}

/-- What is wrong with a block after the blocks `earlier`: the first of these that applies. -/
inductive Faulty (earlier : List Block) (b : Block) : Topic → DefinitionFault → Prop
  | head (hhead : ∀ name, b.head ≠ .ofName name) :
    Faulty earlier b .malformedDefinition (.headNotSymbol b.head.text)
  | duplicate {name : String} {c : Block} (hhead : b.head = .ofName name) (hc : c ∈ earlier)
    (hsame : c.head = b.head) :
    Faulty earlier b .duplicateSymbol (.duplicateSymbol name (some c.line))
  | emptyBody {name : String} (hhead : b.head = .ofName name)
    (hnew : ∀ c ∈ earlier, c.head ≠ b.head) (hbody : b.body = []) :
    Faulty earlier b .malformedDefinition (.emptyBody name)
  | selfReference {name : String} (hhead : b.head = .ofName name)
    (hnew : ∀ c ∈ earlier, c.head ≠ b.head) (hself : b.head ∈ b.body) :
    Faulty earlier b .unsupportedRecursion (.selfReference name)
  | body {name : String} {topic : Topic} {fault : DefinitionFault} (hhead : b.head = .ofName name)
    (hnew : ∀ c ∈ earlier, c.head ≠ b.head) (hbody : b.body ≠ []) (hself : b.head ∉ b.body)
    (h : Node.Faulty b.body topic fault) : Faulty earlier b topic fault

theorem forall_head_ne_iff (hknown : List.Forall₂ Written earlier known)
    (hhead : b.head = .ofName name) :
    (∀ c ∈ earlier, c.head ≠ b.head) ↔ name ∉ known.map Definition.name := by
  rw [← List.mem_map_of_injective Token.ofName_injective, ← map_head_eq hknown, hhead]
  simp

theorem faulty_of_define (hknown : List.Forall₂ Written earlier known)
    (h : b.define known = .error fault) : b.Faulty earlier fault.topic fault := by
  rw [define_eq] at h
  split at h
  · rename_i hnone
    cases h
    refine .head fun name hhead => ?_
    rw [Token.symbol?_eq_some_iff.mpr hhead] at hnone
    cases hnone
  · rename_i name hname
    have hhead := Token.symbol?_eq_some_iff.mp hname
    split at h
    · rename_i d hfind
      cases h
      obtain ⟨c, hc, hw⟩ := exists_mem_of_forall₂ hknown (List.mem_of_find?_eq_some hfind)
      have hd : d.name = name := by simpa using List.find?_some hfind
      rw [hw.line]
      exact .duplicate hhead hc (by rw [hw.head, hd, hhead])
    · rename_i hfind
      have hnew := (forall_head_ne_iff hknown hhead).mpr (find?_eq_none_iff.mp hfind)
      split at h
      · rename_i hbody
        cases h
        exact .emptyBody hhead hnew (by simpa using hbody)
      · rename_i hbody
        split at h
        · rename_i hself
          cases h
          exact .selfReference hhead hnew ((any_isOperator_head hhead).mp hself)
        · rename_i hself
          have hnode := Node.ofTokens_eq_error_iff.mp ⟨exceptMap_eq_error.mp h, rfl⟩
          exact .body hhead hnew (by simpa using hbody)
            (fun hmem => hself ((any_isOperator_head hhead).mpr hmem)) hnode

theorem define_of_new (hknown : List.Forall₂ Written earlier known) (hhead : b.head = .ofName name)
    (hnew : ∀ c ∈ earlier, c.head ≠ b.head) : b.define known =
      if b.body.isEmpty then .error (.emptyBody name)
      else if b.body.any (·.isOperator b.head.text) then .error (.selfReference name)
      else (Node.ofTokens b.body).map (⟨name, ·, b.line⟩) := by
  have hfind := find?_eq_none_iff.mpr ((forall_head_ne_iff hknown hhead).mp hnew)
  rw [define_eq, Token.symbol?_eq_some_iff.mpr hhead]
  dsimp only
  rw [hfind]

theorem Faulty.define_eq (h : b.Faulty earlier topic fault)
    (hknown : List.Forall₂ Written earlier known) (hnodup : (known.map Definition.name).Nodup) :
    b.define known = .error fault ∧ fault.topic = topic := by
  cases h with
  | head hhead =>
    have hnone : b.head.symbol? = none :=
      Option.eq_none_iff_forall_ne_some.mpr fun name hname =>
        hhead name (Token.symbol?_eq_some_iff.mp hname)
    rw [Block.define_eq, hnone]
    exact ⟨rfl, rfl⟩
  | @duplicate name c hhead hc hsame =>
    obtain ⟨d, hd, hw⟩ := exists_mem_of_forall₂ hknown.flip hc
    have hname : d.name = name := Token.ofName_injective (by rw [← hw.head, hsame, hhead])
    rw [Block.define_eq, Token.symbol?_eq_some_iff.mpr hhead]
    dsimp only
    rw [(find?_eq_some_iff hnodup).mpr ⟨hd, hname⟩, ← hw.line]
    exact ⟨rfl, rfl⟩
  | emptyBody hhead hnew hbody =>
    rw [define_of_new hknown hhead hnew, if_pos (by simpa using hbody)]
    exact ⟨rfl, rfl⟩
  | selfReference hhead hnew hself =>
    rw [define_of_new hknown hhead hnew, if_neg (by simpa using List.ne_nil_of_mem hself),
      if_pos ((any_isOperator_head hhead).mpr hself)]
    exact ⟨rfl, rfl⟩
  | body hhead hnew hbody hself h =>
    obtain ⟨hnode, htopic⟩ := Node.ofTokens_eq_error_iff.mpr h
    rw [define_of_new hknown hhead hnew, if_neg (by simpa using hbody),
      if_neg fun hany => hself ((any_isOperator_head hhead).mp hany)]
    exact ⟨exceptMap_eq_error.mpr hnode, htopic⟩

theorem define_eq_error_iff (hknown : List.Forall₂ Written earlier known)
    (hnodup : (known.map Definition.name).Nodup) :
    b.define known = .error fault ∧ fault.topic = topic ↔ b.Faulty earlier topic fault := by
  constructor
  · rintro ⟨h, rfl⟩
    exact faulty_of_define hknown h
  · exact fun h => h.define_eq hknown hnodup

/-- Each of the blocks is without fault after those before it. -/
def Faultless (blocks : List Block) : Prop :=
  ∀ front b back, blocks = front ++ b :: back → ∀ topic fault, ¬ b.Faulty front topic fault

end Block

-- ---------------------------------------------------------------------------
-- Readings
-- ---------------------------------------------------------------------------

namespace Reading

variable {bs : List Block} {known ds : List Definition} {lines : List Line} {f : LocatedFault}

/-- Why lines cannot be read: there are none, the first one starts no definition, or a block is
the first one with a fault. -/
inductive Faulty (lines : List Line) : Topic → LocatedFault → Prop
  | blank (h : lines = []) : Faulty lines .emptyGrammar ⟨.noDefinitions, none⟩
  | first {line : Line} (hfirst : lines.head? = some line) (hstarts : ¬ line.Starts) :
    Faulty lines .malformedDefinition ⟨.expectedDefinition, some line.number⟩
  | block {earlier later : List Block} {b : Block} {topic : Topic} {fault : DefinitionFault}
    (hcut : Block.Cut lines (earlier ++ b :: later)) (hearlier : Block.Faultless earlier)
    (h : b.Faulty earlier topic fault) : Faulty lines topic ⟨fault, some b.line⟩

theorem define_of_result (h : (ofBlocks known (b :: bs)).result = .ok ds) :
    ∃ d, b.define known = .ok d := by
  rw [ofBlocks] at h
  split at h
  · cases h
  · exact ⟨_, ‹_›⟩

theorem faultless_of_result (h : (ofBlocks [] bs).result = .ok ds) : Block.Faultless bs := by
  rintro front b back rfl topic fault hfault
  rw [result_ofBlocks_append, exceptBind_eq_ok] at h
  obtain ⟨known, hfront, hback⟩ := h
  obtain ⟨hw, hnodup⟩ := written_of_result hfront
  obtain ⟨d, hd⟩ := define_of_result hback
  cases hd.symm.trans ((Block.define_eq_error_iff hw hnodup).mpr hfault).1

theorem exists_result_of_faultless (h : Block.Faultless bs) :
    ∃ ds, (ofBlocks [] bs).result = .ok ds := by
  refine exceptExists_eq_ok_iff.mpr fun f hf => ?_
  obtain ⟨earlier, b, later, known, hbs, hknown, hdefine, -⟩ := exists_define_eq_error hf
  obtain ⟨hw, hnodup⟩ := written_of_result hknown
  exact h earlier b later hbs _ _ ((Block.define_eq_error_iff hw hnodup).mp ⟨hdefine, rfl⟩)

theorem result_ofBlocks_eq_error_iff :
    (ofBlocks [] bs).result = .error f ∧ f.fault.topic = topic ↔
      ∃ earlier b later, bs = earlier ++ b :: later ∧ Block.Faultless earlier ∧
        b.Faulty earlier topic f.fault ∧ f.line = some b.line := by
  constructor
  · rintro ⟨h, rfl⟩
    obtain ⟨earlier, b, later, known, hbs, hknown, hdefine, hline⟩ := exists_define_eq_error h
    obtain ⟨hw, hnodup⟩ := written_of_result hknown
    exact ⟨earlier, b, later, hbs, faultless_of_result hknown,
      (Block.define_eq_error_iff hw hnodup).mp ⟨hdefine, rfl⟩, hline⟩
  · rintro ⟨earlier, b, later, rfl, hearlier, hfault, hline⟩
    obtain ⟨known, hknown⟩ := exists_result_of_faultless hearlier
    obtain ⟨hw, hnodup⟩ := written_of_result hknown
    obtain ⟨hdefine, htopic⟩ := (Block.define_eq_error_iff hw hnodup).mpr hfault
    refine ⟨?_, htopic⟩
    rw [result_ofBlocks_append, hknown]
    show (ofBlocks known (b :: later)).result = _
    rw [ofBlocks, hdefine, ← hline]
    rfl

theorem result_ofLines_eq_error_iff :
    (ofLines lines).result = .error f ∧ f.fault.topic = topic ↔ Faulty lines topic f := by
  constructor
  · rintro ⟨h, rfl⟩
    rw [ofLines] at h
    split at h
    · rename_i line loose blocks hcut
      cases h
      obtain ⟨rest, hlines, hloose, -⟩ := Block.exists_cut lines
      rw [hcut] at hlines hloose
      exact .first (by rw [hlines]; rfl) (hloose line (.head _))
    · rename_i hcut
      cases h
      cases Block.cut_eq_iff.mp hcut
      exact .blank rfl
    · rename_i blocks _ hcut
      obtain ⟨earlier, b, later, rfl, hearlier, hfault, hline⟩ :=
        result_ofBlocks_eq_error_iff.mp ⟨h, rfl⟩
      obtain ⟨fault, line⟩ := f
      obtain rfl : line = some b.line := hline
      exact .block (Block.cut_eq_iff.mp hcut) hearlier hfault
  · rintro (rfl | ⟨hfirst, hstarts⟩ | ⟨hcut, hearlier, hfault⟩)
    · exact ⟨rfl, rfl⟩
    · obtain ⟨rest, rfl⟩ := List.head?_eq_some_iff.mp hfirst
      rw [ofLines, Block.cut_cons_of_not_starts hstarts]
      exact ⟨rfl, rfl⟩
    · have hne : lines ≠ [] := by
        rintro rfl
        simpa [Block.cut] using hcut.cut_eq
      rw [ofLines_of_cut_eq hne hcut.cut_eq]
      exact result_ofBlocks_eq_error_iff.mpr ⟨_, _, _, rfl, hearlier, hfault, rfl⟩

end Reading

/-- A text cannot be read exactly if it is faulty, and then the fault, its family and its line are
as the first faulty block has them. -/
theorem Definition.readAll_eq_error_iff (text : String) (f : LocatedFault) (topic : Topic) :
    readAll text = .error f ∧ f.fault.topic = topic ↔
      Reading.Faulty (Line.ofText text) topic f :=
  Reading.result_ofLines_eq_error_iff

/-- The group is reported, which comes before an empty alternative and another definition. -/
example : Definition.readAll "<a> ::= \x7b x | |\n<a> ::= <a>" =
    .error ⟨.unclosedGroup, some 1⟩ := by
  have hlines : Line.ofText "<a> ::= \x7b x | |\n<a> ::= <a>" =
      [⟨1, [⟨"<a>", false⟩, ⟨"::=", false⟩, ⟨"\x7b", false⟩, ⟨"x", false⟩, ⟨"|", false⟩,
        ⟨"|", false⟩]⟩, ⟨2, [⟨"<a>", false⟩, ⟨"::=", false⟩, ⟨"<a>", false⟩]⟩] := by decide
  rw [Definition.readAll, Reading.ofText, hlines]
  cbv

end BackusNaur

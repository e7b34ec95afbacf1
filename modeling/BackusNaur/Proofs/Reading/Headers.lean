import BackusNaur.Proofs.Reading.Locating

/-!
# The line where reading fails

A text that cannot be read fails at one of its lines: at the first one, if no definition starts
there, and otherwise at the header of the first block that is no definition. For a text combined
from several sources this line is looked up among the sources, and so is the header of the first
definition of a symbol that has two.

`Grammar.load_eq_error_at_header`: a fault with a line is reported with the source that the line
where reading fails comes from, and with the number that it has there.
-/

namespace BackusNaur

-- ---------------------------------------------------------------------------
-- The order of lines
-- ---------------------------------------------------------------------------

theorem Line.pairwise_number (text : String) :
    (ofText text).Pairwise fun a b => a.number < b.number := by
  have hentries : ((Text.lines text.toList).zipIdx 1).Pairwise fun a b => a.2 < b.2 := by
    rw [← List.pairwise_map, List.zipIdx_map_snd]
    exact List.pairwise_lt_range'
  rw [ofText_eq_filterMap]
  refine hentries.filterMap _ ?_
  intro a b hab line hline line' hline'
  rw [number_of_ofNumbered? hline, number_of_ofNumbered? hline']
  exact hab

theorem Line.eq_of_number_eq {text : String} {x y : Line} (hx : x ∈ ofText text)
    (hy : y ∈ ofText text) (h : x.number = y.number) : x = y := by
  have hnodup : ((ofText text).map Line.number).Nodup :=
    List.pairwise_map.mpr ((pairwise_number text).imp Nat.ne_of_lt)
  exact List.inj_on_of_nodup_map hnodup hx hy h

/-- The line is the header of a definition of the symbol. -/
def Line.Declares (line : Line) (name : String) : Prop :=
  ∃ body, line.tokens = .ofName name :: ⟨Token.define, false⟩ :: body

namespace Block

variable {lines : List Line} {blocks earlier later : List Block} {b c : Block}

theorem Cut.sublist_number (h : Cut lines blocks) :
    (blocks.map Block.line).Sublist (lines.map Line.number) := by
  induction h with
  | none => exact .slnil
  | block hline hmore _ ih =>
    rw [List.map_append]
    exact .cons_cons _ (ih.trans (List.sublist_append_right ..))

/-- Blocks come in the order of their headers. -/
theorem Cut.line_lt (h : Cut lines (earlier ++ b :: later))
    (hlines : lines.Pairwise fun x y => x.number < y.number) (hc : c ∈ earlier) :
    c.line < b.line := by
  rw [← List.pairwise_map] at hlines
  have hblocks := hlines.sublist h.sublist_number
  rw [List.pairwise_map, List.pairwise_append] at hblocks
  exact hblocks.2.2 c hc b (.head _)

theorem Cut.exists_header (h : Cut lines blocks) (hb : b ∈ blocks) :
    ∃ line ∈ lines, line.number = b.line ∧
      ∃ body, line.tokens = b.head :: ⟨Token.define, false⟩ :: body := by
  apply exists_header_of_mem_cut
  rw [h.cut_eq]
  exact hb

theorem Cut.exists_block {line : Line} {head : Token} {body : List Token} (h : Cut lines blocks)
    (hl : line ∈ lines) (htokens : line.tokens = head :: ⟨Token.define, false⟩ :: body) :
    ∃ b ∈ blocks, b.line = line.number ∧ b.head = head := by
  induction h with
  | none => cases hl
  | @block first more rest head' body' blocks hfirst hmore _ ih =>
    rcases List.mem_append.mp hl with hl | hl
    · rcases List.mem_cons.mp hl with rfl | hl
      · exact ⟨_, .head _, rfl, (List.cons.inj (hfirst.symm.trans htokens)).1⟩
      · exact absurd ⟨_, _, htokens⟩ (hmore line hl)
    · obtain ⟨b, hb, hblock⟩ := ih hl
      exact ⟨b, .tail _ hb, hblock⟩

end Block

-- ---------------------------------------------------------------------------
-- Failing lines
-- ---------------------------------------------------------------------------

namespace Reading

variable {lines : List Line} {line : Line} {f : LocatedFault} {n : Nat}

/-- The lines cannot be read because of the fault at the line: it is the first one and starts no
definition, or it starts the first block that is no definition after those of the blocks before. -/
inductive FailsAt (lines : List Line) : DefinitionFault → Line → Prop
  | first {line : Line} (hfirst : lines.head? = some line) (hstarts : ¬ line.Starts) :
    FailsAt lines .expectedDefinition line
  | header {earlier later : List Block} {b : Block} {known : List Definition} {line : Line}
    {body : List Token} {fault : DefinitionFault}
    (hcut : Block.Cut lines (earlier ++ b :: later))
    (hknown : List.Forall₂ Block.Written earlier known)
    (hnodup : (known.map Definition.name).Nodup) (hfault : b.define known = .error fault)
    (hmem : line ∈ lines) (hnumber : line.number = b.line)
    (htokens : line.tokens = b.head :: ⟨Token.define, false⟩ :: body) :
    FailsAt lines fault line

theorem FailsAt.mem {fault : DefinitionFault} (h : FailsAt lines fault line) : line ∈ lines := by
  cases h with
  | first hfirst => exact List.mem_of_head? hfirst
  | header _ _ _ _ hmem => exact hmem

theorem exists_failsAt_of_blocks {blocks : List Block} (hcut : Block.Cut lines blocks)
    (h : (ofBlocks [] blocks).result = .error f) :
    ∃ line, f.line = some line.number ∧ FailsAt lines f.fault line := by
  obtain ⟨earlier, b, later, known, rfl, hearlier, hfault, hline⟩ := exists_define_eq_error h
  obtain ⟨hknown, hnodup⟩ := written_of_result hearlier
  obtain ⟨line, hmem, hnumber, body, htokens⟩ := hcut.exists_header (b := b) (by simp)
  refine ⟨line, ?_, .header hcut hknown hnodup hfault hmem hnumber htokens⟩
  rw [hline, hnumber]

theorem exists_failsAt (h : (ofLines lines).result = .error f) (hline : f.line = some n) :
    ∃ line, line.number = n ∧ FailsAt lines f.fault line := by
  rw [ofLines] at h
  split at h
  · rename_i line loose blocks hcut
    obtain rfl := Except.error.inj h
    obtain ⟨rest, hlines, hloose, -⟩ := Block.exists_cut lines
    rw [hcut] at hlines hloose
    refine ⟨line, Option.some.inj hline, .first ?_ (hloose line (.head _))⟩
    rw [hlines]
    rfl
  · obtain rfl := Except.error.inj h
    cases hline
  · rename_i blocks _ hcut
    obtain ⟨line, hnumber, hfails⟩ := exists_failsAt_of_blocks (Block.cut_eq_iff.mp hcut) h
    exact ⟨line, Option.some.inj (hnumber.symm.trans hline), hfails⟩

/-- A symbol with two definitions is reported at the header of the second one, and the line that is
given for the first one is an earlier header. -/
theorem FailsAt.exists_first {name : String} {first : Option Int}
    (h : FailsAt lines (.duplicateSymbol name first) line)
    (hlines : lines.Pairwise fun a b => a.number < b.number) :
    line.Declares name ∧ ∃ earlier ∈ lines, earlier.Declares name ∧
      first = some (earlier.number : Int) ∧ earlier.number < line.number := by
  cases h with
  | @header earlier _ b known _ body _ hcut hknown _ hfault _ hnumber htokens =>
    obtain ⟨hhead, d, hd, rfl, rfl⟩ := Block.exists_mem_of_define_eq_duplicate hfault
    obtain ⟨c, hc, hwritten⟩ := exists_mem_of_forall₂ hknown hd
    obtain ⟨found, hfound, hnumber', body', htokens'⟩ := hcut.exists_header (b := c) (by simp [hc])
    have hlt := hcut.line_lt hlines hc
    refine ⟨⟨body, ?_⟩, found, hfound, ⟨body', ?_⟩, ?_, ?_⟩
    · rw [htokens, hhead]
    · rw [htokens', hwritten.head]
    · rw [hnumber', hwritten.line]
    · rwa [hnumber, hnumber']

end Reading

-- ---------------------------------------------------------------------------
-- Sources
-- ---------------------------------------------------------------------------

def Source.DeclaresAt (source : Source) (name : String) (k : Nat) : Prop :=
  ∃ line ∈ Line.ofText source.text, line.number = k ∧ line.Declares name

namespace Disk

variable {disk : Disk} {codecs : Codecs} {encoding : CodePoints} {d : Diagnostic}

theorem line_of_readText_eq_error {p : Path}
    (h : disk.readText codecs p encoding = .error (.ofDiagnostic d)) : d.line = none := by
  simp only [readText, exceptBind_eq_error, exceptMapError_eq_error] at h
  rcases h with ⟨_, -, ⟨⟩⟩ | ⟨_, -, ⟨fault, -, hopen⟩ | ⟨bytes, -, ⟨_, -, ⟨⟩⟩ | ⟨decode, -, h⟩⟩⟩
  · cases fault <;> cases hopen <;> rfl
  · split at h
    · cases h
    · cases h
    · cases h
      rfl

theorem line_of_readSource_eq_error {path : String}
    (h : disk.readSource codecs encoding path = .error (.ofDiagnostic d)) : d.line = none := by
  simp only [readSource, exceptBind_eq_error] at h
  rcases h with h | ⟨_, -, ⟨⟩⟩
  exact line_of_readText_eq_error h

theorem line_of_readSources_eq_error {path : String} {dictionaries : List String}
    (h : disk.readSources codecs encoding path dictionaries = .error (.ofDiagnostic d)) :
    d.line = none := by
  simp only [readSources, exceptBind_eq_error] at h
  rcases h with h | ⟨_, -, h | ⟨_, -, ⟨⟩⟩⟩
  · exact line_of_readSource_eq_error h
  · obtain ⟨dictionary, -, h⟩ := exists_of_mapM_eq_error h
    exact line_of_readSource_eq_error h

theorem dictionaries_ne_nil_of_readSources {path : String} {dictionaries : List String}
    {s : Sources} (h : disk.readSources codecs encoding path dictionaries = .ok s)
    (hne : dictionaries ≠ []) : s.dictionaries ≠ [] := by
  simp only [readSources, exceptBind_eq_ok, exceptPure_eq_ok, mapM_eq_ok_iff] at h
  obtain ⟨grammar, -, found, hfound, rfl⟩ := h
  rintro (rfl : found = [])
  exact hne (List.forall₂_nil_right_iff.mp hfound)

end Disk

namespace Grammar

variable {s : Sources} {f : LocatedFault} {line : Line} {d : Diagnostic} {settings : Settings}

theorem exists_fault_of_ofSources_eq_error {found : Int} (hdicts : s.dictionaries ≠ [])
    (h : ofSources s settings = .error d) (hfound : d.line = some found) :
    ∃ f n, Definition.readAll s.text = .error f ∧ f.line = some n := by
  cases hread : Definition.readAll s.text with
  | ok ds =>
    simp only [ofSources, ofText, hread, exceptMapError_eq_error, exceptBind_eq_error] at h
    obtain ⟨_, ⟨_, ⟨⟩, -⟩ | ⟨_, -, names, -, rfl⟩, rfl⟩ := h
    cases hfound
  | error f =>
    cases hline : f.line with
    | some n => exact ⟨f, n, rfl, hline⟩
    | none =>
      have hmoved : (SourceMap.ofSources s.all).relocate?
          (Diagnostic.ofLocatedFault (some s.grammar.path) f) =
            some (Diagnostic.ofLocatedFault (some s.grammar.path) f) := by
        simp [SourceMap.relocate?, Diagnostic.ofLocatedFault, hline]
      rw [ofSources_eq_error_of_relocate? settings hdicts hread hmoved] at h
      cases h
      simp [Diagnostic.ofLocatedFault, hline] at hfound

theorem exists_lineFrom_of_readAll_eq_error (settings : Settings) (hdicts : s.dictionaries ≠ [])
    (hfault : Definition.readAll s.text = .error f) (hline : f.line = some line.number)
    (hmem : line ∈ Line.ofText s.text) :
    ∃ d source k, ofSources s settings = .error d ∧ s.LineFrom line.number source k ∧
      ⟨k, line.tokens⟩ ∈ Line.ofText source.text ∧ d.cause = .definition f.fault ∧
      d.At source.path k ∧
      ∀ name, ∀ first ∈ Line.ofText s.text,
        f.fault = .duplicateSymbol name (some (first.number : Int)) →
        ∃ source₀ k₀, s.LineFrom first.number source₀ k₀ ∧
          ⟨k₀, first.tokens⟩ ∈ Line.ofText source₀.text ∧
          d.hint = some s!"<{name}> was first declared at {source₀.path}:{k₀}" := by
  obtain ⟨source, k, hfrom, hown, hlocate⟩ := s.exists_lineFrom_of_mem hmem
  have hmap : SourceMap.ofSources s.all ≠ [] := by simp [Sources.all, SourceMap.ofSources]
  have hplace : (Diagnostic.ofLocatedFault (some s.grammar.path) f).line =
      some (line.number : Int) := by simp [Diagnostic.ofLocatedFault, hline]
  obtain ⟨d, hmoved, hcause, hat, hhint⟩ := SourceMap.relocate?_of_locate? hmap hplace hlocate
  refine ⟨d, source, k, ofSources_eq_error_of_relocate? settings hdicts hfault hmoved, hfrom, hown,
    hcause, hat, ?_⟩
  intro name first hfirst hdup
  obtain ⟨source₀, k₀, hfrom₀, hown₀, hlocate₀⟩ := s.exists_lineFrom_of_mem hfirst
  refine ⟨source₀, k₀, hfrom₀, hown₀, ?_⟩
  rw [hhint name _ _ (congrArg Cause.definition hdup) hlocate₀]
  rfl

/-- Where a grammar is read from a file and dictionaries, a fault with a line is reported with one
of these sources and with a line of it: the one that the line where reading fails comes from. Source
and line stand in the diagnostic by themselves and as its location, and are the same in both. A
symbol with two definitions is reported at the header of the second one, and the hint names the
header of an earlier one, each in its own source. -/
theorem load_eq_error_at_header {rt : Runtime} {disk : Disk} {path : String}
    {dictionaries : List String} {found : Int} (hdicts : dictionaries ≠ [])
    (h : load rt disk path dictionaries settings = .error (.ofDiagnostic d))
    (hfound : d.line = some found) :
    ∃ s f line source k, disk.readSources rt.codecs settings.encoding path dictionaries = .ok s ∧
      Definition.readAll s.text = .error f ∧ f.line = some line.number ∧
      Reading.FailsAt (Line.ofText s.text) f.fault line ∧ s.LineFrom line.number source k ∧
      ⟨k, line.tokens⟩ ∈ Line.ofText source.text ∧ d.cause = .definition f.fault ∧
      (d.path = some source.path ∧ d.line = some (k : Int) ∧
        d.location.path = d.path ∧ d.location.line = d.line) ∧
      ∀ name first, f.fault = .duplicateSymbol name first →
        source.DeclaresAt name k ∧ ∃ (n : Nat) (source₀ : Source) (k₀ : Nat),
          first = some (n : Int) ∧ n < line.number ∧ s.LineFrom n source₀ k₀ ∧
          source₀.DeclaresAt name k₀ ∧
          d.hint = some s!"<{name}> was first declared at {source₀.path}:{k₀}" := by
  simp only [load, exceptBind_eq_error, ofSourcesIn_eq_diagnostic_iff] at h
  rcases h with hread | ⟨s, hread, -, hd⟩
  · rw [Disk.line_of_readSources_eq_error hread] at hfound
    cases hfound
  have hne := Disk.dictionaries_ne_nil_of_readSources hread hdicts
  obtain ⟨f, n, hfault, hline⟩ := exists_fault_of_ofSources_eq_error hne hd hfound
  obtain ⟨line, rfl, hfails⟩ := Reading.exists_failsAt hfault hline
  obtain ⟨moved, source, k, hmoved, hfrom, hown, hcause, hat, hhint⟩ :=
    exists_lineFrom_of_readAll_eq_error settings hne hfault hline hfails.mem
  obtain rfl : moved = d := Except.error.inj (hmoved.symm.trans hd)
  have hagree := hat.agree
  refine ⟨s, f, line, source, k, hread, hfault, hline, hfails, hfrom, hown, hcause,
    ⟨hat.path, hat.line, congrArg Location.path hagree, congrArg Location.line hagree⟩, ?_⟩
  intro name first hdup
  rw [hdup] at hfails
  obtain ⟨hdeclares, earlier, hmem, hearlier, rfl, hlt⟩ :=
    hfails.exists_first (Line.pairwise_number _)
  obtain ⟨source₀, k₀, hfrom₀, hown₀, hmoved₀⟩ := hhint name earlier hmem hdup
  exact ⟨⟨_, hown, rfl, hdeclares⟩, earlier.number, source₀, k₀, rfl, hlt, hfrom₀,
    ⟨_, hown₀, rfl, hearlier⟩, hmoved₀⟩

def overlapping : Disk where
  base := ⟨"/", []⟩
  entries := [(⟨"/", ["main"]⟩, .file "<a> ::= x\n\n<b> ::= y\n".toUTF8.toList),
    (⟨"/", ["names"]⟩, .file "\n<b> ::= z".toUTF8.toList)]

theorem load_overlapping : ∃ d,
    load .basic overlapping "main" ["names"] {} = .error (.ofDiagnostic d) ∧
    d.path = some "names" ∧ d.line = some 2 ∧ d.location = ⟨some "names", some 2⟩ ∧
    ∃ source source₀ : Source, ∃ k₀ : Nat,
      source.path = "names" ∧ source.DeclaresAt "b" 2 ∧ source₀.DeclaresAt "b" k₀ ∧
      d.hint = some s!"<b> was first declared at {source₀.path}:{k₀}" := by
  let s : Sources := ⟨⟨"main", "<a> ::= x\n\n<b> ::= y\n"⟩, [⟨"names", "\n<b> ::= z"⟩]⟩
  have hread : overlapping.readSources Runtime.basic.codecs ({} : Settings).encoding "main"
      ["names"] = .ok s := by
    decide +kernel
  have hlines : Line.ofText s.text = [⟨1, [⟨"<a>", false⟩, ⟨"::=", false⟩, ⟨"x", false⟩]⟩,
      ⟨3, [⟨"<b>", false⟩, ⟨"::=", false⟩, ⟨"y", false⟩]⟩,
      ⟨6, [⟨"<b>", false⟩, ⟨"::=", false⟩, ⟨"z", false⟩]⟩] := by decide
  have hroom : Reading.overflow? Runtime.basic.room s.text = none := by
    rw [Reading.overflow?, hlines]
    decide +kernel
  have hfault : Definition.readAll s.text = .error ⟨.duplicateSymbol "b" (some 3), some 6⟩ := by
    rw [Definition.readAll, Reading.ofText, hlines]
    cbv
  have hfound : (SourceMap.ofSources s.all).locate? 6 = some ("names", 2) := by decide
  obtain ⟨d, hd, hcause, hat⟩ := ofSources_eq_error {} (List.cons_ne_nil _ _) hfault rfl hfound
  have hload := load_eq_error hread hroom hd
  obtain ⟨_, f, _, source, k, -, -, -, -, -, -, hcause', ⟨hpath, hk, -⟩, hduplicate⟩ :=
    load_eq_error_at_header (List.cons_ne_nil _ _) hload hat.line
  have hf : f.fault = .duplicateSymbol "b" (some 3) :=
    Cause.definition.inj (hcause'.symm.trans hcause)
  obtain ⟨hdeclares, _, source₀, k₀, -, -, -, hdeclares₀, hhint⟩ := hduplicate _ _ hf
  have hpath : source.path = "names" := Option.some.inj (hpath.symm.trans hat.path)
  obtain rfl : k = 2 := by exact_mod_cast Option.some.inj (hk.symm.trans hat.line)
  refine ⟨d, hload, hat.path, hat.line, hat.location, source, source₀, k₀, hpath, hdeclares,
    hdeclares₀, ?_⟩
  simpa [toString] using hhint

end Grammar

end BackusNaur

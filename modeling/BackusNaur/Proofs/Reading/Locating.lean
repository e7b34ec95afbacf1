import BackusNaur.Files.Reading
import BackusNaur.Proofs.Reading.Joining

/-!
# Where faults are reported

A fault of a combined text is reported with a source and a line of that source's own text. The line
is that of the definition that has the fault. A source that does not begin with a definition adds
its first lines to the last definition before it, and what is wrong with these is reported there,
under the name of another source.

`Sources.exists_lineFrom_of_mem`: each line of a combined text that is not blank is found in the
source that it comes from.

`Grammar.ofSources_eq_error_at_last_iff`: a fault that the last source brings is reported in the
last source exactly if the definitions before it can be read with the lines that it adds to them.
-/

namespace BackusNaur

-- ---------------------------------------------------------------------------
-- Combined texts
-- ---------------------------------------------------------------------------

theorem combine_cons (grammar text : String) (texts : List String) :
    combine grammar (text :: texts) = combine (combine grammar [text]) texts := rfl

theorem combine_concat (grammar : String) (texts : List String) (text : String) :
    combine grammar (texts ++ [text]) = combine (combine grammar texts) [text] := by
  induction texts generalizing grammar with
  | nil => rfl
  | cons first texts ih => rw [List.cons_append, combine_cons, ih, combine_cons grammar first texts]

theorem Line.number_of_ofNumbered? {entry : List Char × Nat} {line : Line}
    (h : ofNumbered? entry = some line) : line.number = entry.2 := by
  rw [ofNumbered?] at h
  split at h
  · cases h
  · cases h
    rfl

theorem Line.number_bounds {text : String} {line : Line} (h : line ∈ ofText text) :
    1 ≤ line.number ∧ line.number ≤ Text.lineCount text := by
  rw [ofText_eq_filterMap, List.mem_filterMap] at h
  obtain ⟨⟨chars, number⟩, hmem, hline⟩ := h
  obtain ⟨hlow, hhigh, -⟩ := List.mem_zipIdx hmem
  rw [number_of_ofNumbered? hline, Text.lineCount]
  omega

theorem Line.number_le_newline {text : String} {line : Line} (h : line ∈ ofText text) :
    line.number ≤ Text.lineCount (text ++ "\n") := by
  rw [← ofText_newline] at h
  exact (number_bounds h).2

theorem Block.exists_header_of_mem_cut {lines : List Line} {b : Block} (h : b ∈ (cut lines).2) :
    ∃ line ∈ lines, line.number = b.line ∧
      ∃ body, line.tokens = b.head :: ⟨Token.define, false⟩ :: body := by
  induction lines with
  | nil => cases h
  | cons line lines ih =>
    by_cases hs : line.Starts
    · obtain ⟨head, body, hline⟩ := hs
      rw [cut_cons_of_starts hline] at h
      rcases List.mem_cons.mp h with rfl | h
      · exact ⟨line, .head _, rfl, body, hline⟩
      · obtain ⟨found, hmem, hfound⟩ := ih h
        exact ⟨found, .tail _ hmem, hfound⟩
    · rw [cut_cons_of_not_starts hs] at h
      obtain ⟨found, hmem, hfound⟩ := ih h
      exact ⟨found, .tail _ hmem, hfound⟩

namespace Reading

variable {known : List Definition} {lines : List Line} {f : LocatedFault}

theorem exists_starts_of_result_eq_error
    (h : (ofBlocks known (Block.cut lines).2).result = .error f) :
    ∃ line ∈ lines, line.Starts ∧ f.line = some line.number := by
  obtain ⟨earlier, b, later, -, hblocks, -, -, hline⟩ := exists_define_eq_error h
  have hb : b ∈ (Block.cut lines).2 := by simp [hblocks]
  obtain ⟨line, hmem, hnumber, body, htokens⟩ := Block.exists_header_of_mem_cut hb
  exact ⟨line, hmem, ⟨b.head, body, htokens⟩, hline.trans (congrArg some hnumber.symm)⟩

theorem exists_starts_of_ofLines_eq_error (hne : lines ≠ []) (hfirst : (Block.cut lines).1 = [])
    (h : (ofLines lines).result = .error f) :
    ∃ line ∈ lines, line.Starts ∧ f.line = some line.number := by
  rw [ofLines_of_cut_eq hne (Prod.ext hfirst rfl)] at h
  exact exists_starts_of_result_eq_error h

/-- The text `before` can be read with the lines that come before the first definition of `after`:
its last definition can end with them. -/
def Continues (before after : String) : Prop :=
  ∃ ds, (ofLines (Line.ofText before ++ (Block.cut ((Line.ofText after).map
    (Line.raise (Text.lineCount (before ++ "\n"))))).1)).result = .ok ds

theorem continues_of_starts {before after : String} {ds : List Definition}
    (hbefore : Definition.readAll before = .ok ds)
    (hafter : ∀ first, (Line.ofText after).head? = some first → first.Starts) :
    Continues before after := by
  refine ⟨ds, ?_⟩
  rw [Block.cut_map_raise, Block.cut_fst_eq_nil_iff.mpr hafter, List.map_nil, List.append_nil]
  exact hbefore

/-- A fault that the text `after` brings has one of its lines if `before` can be read with what is
added to it, and otherwise a line of `before`. -/
theorem line_of_readAll_combine {before after : String} {ds : List Definition}
    (hbefore : Definition.readAll before = .ok ds)
    (h : Definition.readAll (combine before [after]) = .error f) :
    (Continues before after → ∃ own ∈ Line.ofText after,
      f.line = some (own.number + Text.lineCount (before ++ "\n"))) ∧
    (¬ Continues before after → ∃ line ∈ Line.ofText before, f.line = some line.number) := by
  have hne := Definition.ne_nil_of_readAll hbefore
  obtain ⟨-, blocks, hcut, -⟩ := result_ofLines_eq_ok_iff.mp hbefore
  obtain ⟨rest, hlines, hloose, hrest⟩ := Block.exists_cut
    ((Line.ofText after).map (Line.raise (Text.lineCount (before ++ "\n"))))
  have hrestcut := hrest.cut_eq
  rw [Continues]
  generalize (Block.cut ((Line.ofText after).map
    (Line.raise (Text.lineCount (before ++ "\n"))))).1 = loose at hlines hloose ⊢
  have hne' : Line.ofText before ++ loose ≠ [] := by simp [hne]
  rw [Definition.readAll, ofText, Line.ofText_combine, hlines, ← List.append_assoc,
    result_ofLines_append hne' (congrArg Prod.fst hrestcut), hrestcut] at h
  constructor
  · rintro ⟨ds', hds'⟩
    rw [hds'] at h
    obtain ⟨line, hmem, -, hline⟩ := exists_starts_of_result_eq_error h
    obtain ⟨own, hown, rfl⟩ := List.mem_map.mp hmem
    exact ⟨own, hown, hline⟩
  · intro hnot
    have hfirst : (Block.cut (Line.ofText before ++ loose)).1 = [] := by
      have hstarts := Block.cut_fst_eq_nil_iff.mp (congrArg Prod.fst hcut.cut_eq)
      rw [Block.cut_fst_eq_nil_iff, List.head?_append_of_ne_nil _ hne]
      exact hstarts
    cases hresult : (ofLines (Line.ofText before ++ loose)).result with
    | ok ds' => exact absurd ⟨ds', hresult⟩ hnot
    | error f' =>
      rw [hresult] at h
      obtain rfl : f' = f := Except.error.inj h
      obtain ⟨line, hmem, hs, hline⟩ := exists_starts_of_ofLines_eq_error hne' hfirst hresult
      rcases List.mem_append.mp hmem with hmem | hmem
      · exact ⟨line, hmem, hline⟩
      · exact absurd hs (hloose line hmem)

end Reading

-- ---------------------------------------------------------------------------
-- Source maps
-- ---------------------------------------------------------------------------

/-- The diagnostic has the place, by itself and as its location. -/
structure Diagnostic.At (d : Diagnostic) (file : String) (n : Int) : Prop where
  path : d.path = some file
  line : d.line = some n
  location : d.location = ⟨some file, some n⟩

theorem Diagnostic.At.agree {d : Diagnostic} {file : String} {n : Int} (h : d.At file n) :
    d.location = ⟨d.path, d.line⟩ := by rw [h.path, h.line, h.location]

namespace SourceMap

variable {map : SourceMap} {offset : Nat} {path : String} {line : Int}

theorem after_concat (combined : String) (sources : List Source) (last : Source) :
    after combined (sources ++ [last]) = after combined sources ++
      [(Text.lineCount (combine combined (sources.map Source.text) ++ "\n"), last.path)] := by
  induction sources generalizing combined with
  | nil => rfl
  | cons first sources ih =>
    rw [List.cons_append, after, ih, after, List.map_cons, combine_cons]
    rfl

theorem ofSources_concat (first : Source) (sources : List Source) (last : Source) :
    ofSources (first :: (sources ++ [last])) = ofSources (first :: sources) ++
      [(Text.lineCount (combine first.text (sources.map Source.text) ++ "\n"), last.path)] := by
  rw [ofSources, after_concat]
  rfl

theorem locate?_concat_of_lt (h : (offset : Int) < line) :
    locate? (map ++ [(offset, path)]) line = some (path, line - offset) := by
  simp [locate?, h]

theorem locate?_concat_of_le (hmap : map ≠ []) (h : line ≤ offset) :
    locate? (map ++ [(offset, path)]) line = locate? map line := by
  have hnot : ¬ (offset : Int) < line := by omega
  simp [locate?, hnot, List.head?_append_of_ne_nil _ hmap]

theorem exists_locate? (hmap : map ≠ []) (line : Int) : ∃ place, locate? map line = some place := by
  obtain ⟨first, rest, rfl⟩ := List.exists_cons_of_ne_nil hmap
  rw [locate?]
  split
  · exact ⟨_, rfl⟩
  · exact ⟨_, rfl⟩

/-- A fault with a line is moved to where the map finds the line, and the first line of a duplicate
is given where the map finds it. -/
theorem relocate?_of_locate? {d : Diagnostic} {found : Int} (hmap : map ≠ [])
    (hline : d.line = some line) (hfound : map.locate? line = some (path, found)) :
    ∃ moved, map.relocate? d = some moved ∧ moved.cause = d.cause ∧ moved.At path found ∧
      ∀ name first place, d.cause = .definition (.duplicateSymbol name (some first)) →
        map.locate? first = some place →
        moved.hint = some s!"<{name}> was first declared at {place.1}:{place.2}" := by
  rw [relocate?, hline]
  dsimp only
  rw [hfound]
  dsimp only [Option.bind_eq_bind, Option.bind_some]
  split
  · rename_i name first hcause
    obtain ⟨place, hplace⟩ := exists_locate? hmap first
    rw [hplace]
    refine ⟨_, rfl, rfl, ⟨rfl, rfl, rfl⟩, ?_⟩
    rintro name' first' place' hcause' hplace'
    rw [hcause] at hcause'
    cases hcause'
    rw [hplace] at hplace'
    cases hplace'
    rfl
  · rename_i hother
    refine ⟨_, rfl, rfl, ⟨rfl, rfl, rfl⟩, ?_⟩
    exact fun name first _ hcause => absurd hcause (hother name first)

end SourceMap

-- ---------------------------------------------------------------------------
-- Lines of the sources
-- ---------------------------------------------------------------------------

theorem Text.getElem?_lines_combine {before : String} {i : Nat} (after : String)
    (h : i < lineCount before) :
    (lines (combine before [after]).toList)[i]? = (lines before.toList)[i]? := by
  rw [Line.lines_combine]
  rw [lineCount] at h
  rcases lines_newline before with hlines | hlines
  · rw [hlines, List.getElem?_append_left h]
  · rw [hlines, List.append_assoc, List.getElem?_append_left h]

namespace Sources

def linesBefore (sources : List Source) : Nat :=
  (Text.lines (sources.flatMap fun source => source.text.toList ++ ['\n'])).length

/-- Line `n` of the combined text is line `k` of the source. -/
structure LineFrom (s : Sources) (n : Nat) (source : Source) (k : Nat) : Prop where
  start : ∃ before after, s.all = before ++ source :: after ∧ n = linesBefore before + k
  bounds : 1 ≤ k ∧ k ≤ Text.lineCount source.text
  chars : (Text.lines s.text.toList)[n - 1]? = (Text.lines source.text.toList)[k - 1]?

variable {grammar last source : Source} {dictionaries : List Source} {s : Sources} {n k : Nat}

theorem text_concat : text ⟨grammar, dictionaries ++ [last]⟩ =
    combine (text ⟨grammar, dictionaries⟩) [last.text] := by
  simp [text, combine_concat]

theorem lineCount_text_newline (s : Sources) :
    Text.lineCount (s.text ++ "\n") = linesBefore s.all := by
  have hchars : (s.text ++ "\n").toList =
      s.all.flatMap fun source => source.text.toList ++ ['\n'] := by
    obtain ⟨grammar, dictionaries⟩ := s
    induction dictionaries using List.reverseRecOn with
    | nil => simp [text, combine, all]
    | append_singleton dictionaries last ih =>
      rw [text_concat]
      simp_all [combine, all]
  rw [Text.lineCount, hchars, linesBefore]

theorem LineFrom.concat (h : LineFrom ⟨grammar, dictionaries⟩ n source k) (last : Source) :
    LineFrom ⟨grammar, dictionaries ++ [last]⟩ n source k := by
  obtain ⟨⟨before, after, hall, hn⟩, hbounds, hchars⟩ := h
  have hall : grammar :: dictionaries = before ++ source :: after := hall
  refine ⟨⟨before, after ++ [last], ?_, hn⟩, hbounds, ?_⟩
  · rw [all, ← List.cons_append, hall, List.append_assoc]
    rfl
  · rw [text_concat, Text.getElem?_lines_combine, hchars]
    -- The line is there, so it is one of the lines before the last source.
    have hlt : k - 1 < (Text.lines source.text.toList).length := by
      have hcount := hbounds.2
      rw [Text.lineCount] at hcount
      omega
    rw [List.getElem?_eq_getElem hlt] at hchars
    exact (List.getElem?_eq_some_iff.mp hchars).1

theorem lineFrom_last (hlow : 1 ≤ k) (hhigh : k ≤ Text.lineCount last.text) :
    LineFrom ⟨grammar, dictionaries ++ [last]⟩
      (linesBefore (grammar :: dictionaries) + k) last k := by
  refine ⟨⟨grammar :: dictionaries, [], rfl, rfl⟩, ⟨hlow, hhigh⟩, ?_⟩
  have hbefore : (Text.lines (text ⟨grammar, dictionaries⟩ ++ "\n").toList).length =
      linesBefore (grammar :: dictionaries) := lineCount_text_newline _
  rw [text_concat, Line.lines_combine, List.getElem?_append_right (by omega), hbefore]
  congr 1
  omega

/-- Each line of a combined text that is not blank comes from a source, and the map finds it
there. -/
theorem exists_lineFrom_of_mem (s : Sources) {line : Line} (h : line ∈ Line.ofText s.text) :
    ∃ source k, s.LineFrom line.number source k ∧ ⟨k, line.tokens⟩ ∈ Line.ofText source.text ∧
      (SourceMap.ofSources s.all).locate? line.number = some (source.path, (k : Int)) := by
  obtain ⟨grammar, dictionaries⟩ := s
  induction dictionaries using List.reverseRecOn generalizing line with
  | nil =>
    have hbounds := Line.number_bounds h
    refine ⟨grammar, line.number, ⟨⟨[], [], rfl, (Nat.zero_add _).symm⟩, hbounds, rfl⟩, h, ?_⟩
    have hlt : ((0 : Nat) : Int) < line.number := by omega
    exact (@SourceMap.locate?_concat_of_lt [] 0 grammar.path line.number hlt).trans (by simp)
  | append_singleton dictionaries last ih =>
    have hstart := lineCount_text_newline ⟨grammar, dictionaries⟩
    rw [all, SourceMap.ofSources_concat]
    rw [text_concat, Line.ofText_combine] at h
    rcases List.mem_append.mp h with h | h
    · obtain ⟨source, k, hfrom, hown, hlocate⟩ := ih h
      have hle : (line.number : Int) ≤ Text.lineCount (text ⟨grammar, dictionaries⟩ ++ "\n") := by
        exact_mod_cast Line.number_le_newline h
      refine ⟨source, k, hfrom.concat last, hown, ?_⟩
      exact (SourceMap.locate?_concat_of_le (by simp [SourceMap.ofSources]) hle).trans hlocate
    · obtain ⟨own, hown, rfl⟩ := List.mem_map.mp h
      obtain ⟨hlow, hhigh⟩ := Line.number_bounds hown
      refine ⟨last, own.number, ?_, hown, ?_⟩
      · rw [Line.raise, Nat.add_comm, hstart]
        exact lineFrom_last hlow hhigh
      · rw [Line.raise]
        refine (SourceMap.locate?_concat_of_lt ?_).trans ?_
        · simp [text]
          omega
        · simp [text]

end Sources

-- ---------------------------------------------------------------------------
-- Grammars from several sources
-- ---------------------------------------------------------------------------

namespace Grammar

variable {s : Sources} {f : LocatedFault} {line : Nat} {path : String} {found : Int}

theorem ofSources_eq_error_of_relocate? {moved : Diagnostic} (settings : Settings)
    (hdicts : s.dictionaries ≠ []) (hfault : Definition.readAll s.text = .error f)
    (hmoved : (SourceMap.ofSources s.all).relocate?
      (Diagnostic.ofLocatedFault (some s.grammar.path) f) = some moved) :
    ofSources s settings = .error moved := by
  obtain ⟨first, rest, hcons⟩ := List.exists_cons_of_ne_nil hdicts
  have hrelocated : relocated s (Diagnostic.ofLocatedFault (some s.grammar.path) f) = moved := by
    rw [relocated, hcons]
    dsimp only [Diagnostic.ofLocatedFault]
    rw [← Diagnostic.ofLocatedFault, hmoved]
    rfl
  rw [ofSources, ofText, hfault, ← hrelocated]
  rfl

theorem ofSources_eq_error (settings : Settings) (hdicts : s.dictionaries ≠ [])
    (hfault : Definition.readAll s.text = .error f) (hline : f.line = some line)
    (hfound : (SourceMap.ofSources s.all).locate? line = some (path, found)) :
    ∃ d, ofSources s settings = .error d ∧ d.cause = .definition f.fault ∧ d.At path found := by
  have hmap : SourceMap.ofSources s.all ≠ [] := by simp [Sources.all, SourceMap.ofSources]
  have hplace : (Diagnostic.ofLocatedFault (some s.grammar.path) f).line = some (line : Int) := by
    simp [Diagnostic.ofLocatedFault, hline]
  obtain ⟨moved, hmoved, hcause, hat, -⟩ := SourceMap.relocate?_of_locate? hmap hplace hfound
  exact ⟨moved, ofSources_eq_error_of_relocate? settings hdicts hfault hmoved, hcause, hat⟩

theorem locate?_of_mem_last {init : List Source} {last : Source} {own : Line}
    (hall : s.all = s.grammar :: (init ++ [last])) (h : own ∈ Line.ofText last.text) :
    (SourceMap.ofSources s.all).locate? ((own.number +
      Text.lineCount (combine s.grammar.text (init.map Source.text) ++ "\n") : Nat) : Int) =
        some (last.path, (own.number : Int)) := by
  have hlow := (Line.number_bounds h).1
  rw [hall, SourceMap.ofSources_concat, SourceMap.locate?_concat_of_lt (by omega)]
  simp

theorem locate?_of_mem_init {init : List Source} {last : Source} {line : Line}
    (hall : s.all = s.grammar :: (init ++ [last]))
    (h : line ∈ Line.ofText (combine s.grammar.text (init.map Source.text))) :
    ∃ source ∈ s.grammar :: init, ∃ own ∈ Line.ofText source.text,
      (SourceMap.ofSources s.all).locate? line.number = some (source.path, (own.number : Int)) := by
  obtain ⟨source, k, ⟨⟨before, after, hbefore, -⟩, -, -⟩, hown, hlocate⟩ :=
    Sources.exists_lineFrom_of_mem ⟨s.grammar, init⟩ h
  have hbefore : s.grammar :: init = before ++ source :: after := hbefore
  have hsource : source ∈ s.grammar :: init := by simp [hbefore]
  refine ⟨source, hsource, _, hown, ?_⟩
  have hle : (line.number : Int) ≤
      Text.lineCount (combine s.grammar.text (init.map Source.text) ++ "\n") := by
    exact_mod_cast Line.number_le_newline h
  rw [hall, SourceMap.ofSources_concat,
    SourceMap.locate?_concat_of_le (by simp [SourceMap.ofSources]) hle]
  exact hlocate

theorem ofSourcesIn_eq_diagnostic_iff {room : Room} {settings : Settings} {d : Diagnostic} :
    ofSourcesIn room s settings = .error (.ofDiagnostic d) ↔
      Reading.overflow? room s.text = none ∧ ofSources s settings = .error d := by
  rw [ofSourcesIn]
  cases Reading.overflow? room s.text with
  | some _ => simp [Failure.ofDiagnostic]
  | none => simp [exceptMapError_eq_error, Failure.ofDiagnostic]

theorem ofSourcesIn_eq_ok_iff {room : Room} {settings : Settings} {g : Grammar} :
    ofSourcesIn room s settings = .ok g ↔
      Reading.overflow? room s.text = none ∧ ofSources s settings = .ok g := by
  rw [ofSourcesIn]
  cases Reading.overflow? room s.text with
  | some _ => simp
  | none => simp [exceptMapError_eq_ok]

theorem load_eq_error {rt : Runtime} {settings : Settings} {disk : Disk}
    {dictionaries : List String} {d : Diagnostic}
    (hread : disk.readSources rt.codecs settings.encoding path dictionaries = .ok s)
    (hroom : Reading.overflow? rt.room s.text = none) (hd : ofSources s settings = .error d) :
    load rt disk path dictionaries settings = .error (.ofDiagnostic d) := by
  rw [load, hread]
  exact ofSourcesIn_eq_diagnostic_iff.mpr ⟨hroom, hd⟩

/-- A fault that the last of several sources brings, where all sources have paths of their own. It
is reported at a line of that source exactly if the sources before it can still be read with the
lines that it adds to their last definition. If they cannot, the fault is reported at a line of the
source with that definition. -/
theorem ofSources_eq_error_at_last_iff {init : List Source} {last : Source} {ds : List Definition}
    (settings : Settings) (hdicts : s.dictionaries = init ++ [last])
    (hpaths : (s.all.map Source.path).Nodup)
    (hbefore : Definition.readAll (combine s.grammar.text (init.map Source.text)) = .ok ds)
    (hfault : Definition.readAll s.text = .error f) (hline : f.line = some line) :
    ∃ d, ofSources s settings = .error d ∧ d.cause = .definition f.fault ∧
      (∀ rt disk path dictionaries,
        Disk.readSources disk rt.codecs settings.encoding path dictionaries = .ok s →
        Reading.overflow? rt.room s.text = none →
        load rt disk path dictionaries settings = .error (.ofDiagnostic d)) ∧
      d.location = ⟨d.path, d.line⟩ ∧
      ((∃ k : Nat, d.location = ⟨some last.path, some (k : Int)⟩ ∧
          1 ≤ k ∧ k ≤ Text.lineCount last.text) ↔
        Reading.Continues (combine s.grammar.text (init.map Source.text)) last.text) ∧
      (¬ Reading.Continues (combine s.grammar.text (init.map Source.text)) last.text →
        ∃ source ∈ s.grammar :: init, ∃ k : Nat,
          d.location = ⟨some source.path, some (k : Int)⟩ ∧
            1 ≤ k ∧ k ≤ Text.lineCount source.text) := by
  have hall : s.all = s.grammar :: (init ++ [last]) := congrArg (s.grammar :: ·) hdicts
  have hne : s.dictionaries ≠ [] := by simp [hdicts]
  have hread := hfault
  rw [Sources.text, hdicts, List.map_append, List.map_singleton, combine_concat] at hread
  obtain ⟨hlast, hothers⟩ := Reading.line_of_readAll_combine hbefore hread
  by_cases hcontinues : Reading.Continues (combine s.grammar.text (init.map Source.text)) last.text
  · obtain ⟨own, hown, hnumber⟩ := hlast hcontinues
    obtain rfl := Option.some.inj (hline.symm.trans hnumber)
    obtain ⟨d, hd, hcause, hat⟩ :=
      ofSources_eq_error settings hne hfault hline (locate?_of_mem_last hall hown)
    refine ⟨d, hd, hcause, fun _ _ _ _ hload hroom => load_eq_error hload hroom hd, hat.agree,
      ⟨fun _ => hcontinues, fun _ => ⟨own.number, hat.location, Line.number_bounds hown⟩⟩,
      absurd hcontinues⟩
  · obtain ⟨found, hmem, hnumber⟩ := hothers hcontinues
    obtain rfl := Option.some.inj (hline.symm.trans hnumber)
    obtain ⟨source, hsource, own, hown, hlocate⟩ := locate?_of_mem_init hall hmem
    obtain ⟨d, hd, hcause, hat⟩ := ofSources_eq_error settings hne hfault hline hlocate
    refine ⟨d, hd, hcause, fun _ _ _ _ hload hroom => load_eq_error hload hroom hd, hat.agree,
      ⟨?_, fun h => absurd h hcontinues⟩,
      fun _ => ⟨source, hsource, own.number, hat.location, Line.number_bounds hown⟩⟩
    rintro ⟨k, hk, -⟩
    rw [hall, ← List.cons_append, List.map_append] at hpaths
    have hpath : source.path = last.path := by
      rw [hat.location] at hk
      simpa using congrArg Location.path hk
    have hmem : source.path ∈ (s.grammar :: init).map Source.path := List.mem_map_of_mem hsource
    exact absurd hpath ((List.nodup_append.mp hpaths).2.2 _ hmem _ (by simp))

theorem readAll_single :
    Definition.readAll "<a> ::= x" = .ok [⟨"a", .sequence [.run [.literal "x"]], 1⟩] := by
  have hlines : Line.ofText "<a> ::= x" =
      [⟨1, [⟨"<a>", false⟩, ⟨"::=", false⟩, ⟨"x", false⟩]⟩] := by decide
  rw [Definition.readAll, Reading.ofText, hlines]
  cbv

theorem ofSources_eq_error_at_definition :
    ∃ d, ofSources ⟨⟨"main", "<a> ::= x"⟩, [⟨"names", "<b> ::= y\n<c> ::= \x7d"⟩]⟩ {} = .error d ∧
      ∃ k : Nat, d.location = ⟨some "names", some (k : Int)⟩ ∧ 1 ≤ k ∧ k ≤ 2 := by
  have hlines : Line.ofText "<b> ::= y\n<c> ::= \x7d" =
      [⟨1, [⟨"<b>", false⟩, ⟨"::=", false⟩, ⟨"y", false⟩]⟩,
        ⟨2, [⟨"<c>", false⟩, ⟨"::=", false⟩, ⟨"\x7d", false⟩]⟩] := by decide
  have hcontinues : Reading.Continues "<a> ::= x" "<b> ::= y\n<c> ::= \x7d" := by
    refine Reading.continues_of_starts readAll_single ?_
    rw [hlines]
    rintro _ ⟨⟩
    exact ⟨_, _, rfl⟩
  let s : Sources := ⟨⟨"main", "<a> ::= x"⟩, [⟨"names", "<b> ::= y\n<c> ::= \x7d"⟩]⟩
  have hfault : Definition.readAll s.text = .error ⟨.strayClose, some 3⟩ := by
    have hall : Line.ofText s.text = [⟨1, [⟨"<a>", false⟩, ⟨"::=", false⟩, ⟨"x", false⟩]⟩,
        ⟨2, [⟨"<b>", false⟩, ⟨"::=", false⟩, ⟨"y", false⟩]⟩,
        ⟨3, [⟨"<c>", false⟩, ⟨"::=", false⟩, ⟨"\x7d", false⟩]⟩] := by decide
    rw [Definition.readAll, Reading.ofText, hall]
    cbv
  have hdicts : s.dictionaries = [] ++ [⟨"names", "<b> ::= y\n<c> ::= \x7d"⟩] := rfl
  obtain ⟨d, hd, -, -, -, hplace, -⟩ :=
    ofSources_eq_error_at_last_iff {} hdicts (by decide) readAll_single hfault rfl
  exact ⟨d, hd, hplace.mpr hcontinues⟩

/-- A brace at the start of a dictionary closes no group, and the last definition of the grammar
before it is reported. -/
theorem not_ofSources_eq_error_at_last : ¬ ∀ (s : Sources) (init : List Source) (last : Source)
    (ds : List Definition) (f : LocatedFault) (line : Nat) (settings : Settings) (d : Diagnostic),
    s.dictionaries = init ++ [last] → (s.all.map Source.path).Nodup →
    Definition.readAll (combine s.grammar.text (init.map Source.text)) = .ok ds →
    Definition.readAll s.text = .error f → f.line = some line → ofSources s settings = .error d →
    ∃ k : Nat, d.location = ⟨some last.path, some (k : Int)⟩ ∧
      1 ≤ k ∧ k ≤ Text.lineCount last.text := by
  intro h
  let s : Sources := ⟨⟨"main", "<a> ::= x"⟩, [⟨"names", "\x7d"⟩]⟩
  have hfault : Definition.readAll s.text = .error ⟨.strayClose, some 1⟩ := by
    have hlines : Line.ofText s.text = [⟨1, [⟨"<a>", false⟩, ⟨"::=", false⟩, ⟨"x", false⟩]⟩,
        ⟨2, [⟨"\x7d", false⟩]⟩] := by decide
    rw [Definition.readAll, Reading.ofText, hlines]
    cbv
  have hfound : (SourceMap.ofSources s.all).locate? 1 = some ("main", 1) := by decide
  obtain ⟨d, hd, -, hat⟩ := ofSources_eq_error {} (List.cons_ne_nil _ _) hfault rfl hfound
  obtain ⟨k, hk, -⟩ :=
    h s [] ⟨"names", "\x7d"⟩ _ _ 1 {} d rfl (by decide) readAll_single hfault rfl hd
  rw [hat.location] at hk
  have hpath : some "main" = some "names" := congrArg Location.path hk
  exact absurd hpath (by decide)

end Grammar

end BackusNaur

import BackusNaur.Proofs.Reading.Acceptance
import BackusNaur.Proofs.Reading.SyntaxFaults
import BackusNaur.Sources

/-!
# A text after another

A dictionary is read after the grammar that it is appended to, as if its lines came later in one
text. So definitions, faults and lines are raised by the number of lines before them, and where the
second text begins with a definition it changes nothing about the first: the last definition of the
first text ends where the second text begins.

`Definition.readAll_combine`: what two texts together read as, from what each of them reads as.
-/

namespace BackusNaur

-- ---------------------------------------------------------------------------
-- Raised lines
-- ---------------------------------------------------------------------------

def Line.raise (n : Nat) (line : Line) : Line := { line with number := line.number + n }

def Block.raise (n : Nat) (b : Block) : Block := { b with line := b.line + n }

def Definition.raise (n : Nat) (d : Definition) : Definition := { d with line := d.line + n }

def DefinitionFault.raise (n : Nat) : DefinitionFault → DefinitionFault
  | .duplicateSymbol name first => .duplicateSymbol name (first.map (· + n))
  | fault => fault

def LocatedFault.raise (n : Nat) (f : LocatedFault) : LocatedFault :=
  ⟨f.fault.raise n, f.line.map (· + n)⟩

-- ---------------------------------------------------------------------------
-- Lines
-- ---------------------------------------------------------------------------

namespace Line

def ofNumbered? (entry : List Char × Nat) : Option Line :=
  let line := Text.trim entry.1
  if line.isEmpty then none else some ⟨entry.2, Token.ofLine line⟩

theorem ofText_eq_filterMap (text : String) :
    ofText text = ((Text.lines text.toList).zipIdx 1).filterMap ofNumbered? := rfl

theorem filterMap_zipIdx_add (lines : List (List Char)) (start n : Nat) :
    (lines.zipIdx (start + n)).filterMap ofNumbered? =
      ((lines.zipIdx start).filterMap ofNumbered?).map (raise n) := by
  induction lines generalizing start with
  | nil => rfl
  | cons line lines ih =>
    have hfirst : ofNumbered? (line, start + n) = (ofNumbered? (line, start)).map (raise n) := by
      unfold ofNumbered?
      dsimp only
      split <;> rfl
    have hrest := ih (start + 1)
    rw [Nat.add_right_comm] at hrest
    rw [List.zipIdx_cons, List.zipIdx_cons, List.filterMap_cons, List.filterMap_cons, hfirst, hrest]
    cases ofNumbered? (line, start) <;> rfl

theorem ofText_newline (text : String) : ofText (text ++ "\n") = ofText text := by
  rw [ofText_eq_filterMap, ofText_eq_filterMap]
  rcases Text.lines_newline text with h | h
  · rw [h]
  · rw [h, List.zipIdx_append, List.filterMap_append]
    exact List.append_nil _

theorem lines_combine (before after : String) : Text.lines (combine before [after]).toList =
    Text.lines (before ++ "\n").toList ++ Text.lines after.toList := by
  have htext : (combine before [after]).toList = (before ++ "\n").toList ++ after.toList := by
    simp [combine]
  have hlast : (before ++ "\n").toList.getLast? = some '\n' := by simp
  rw [htext, Text.lines_append]
  intro c hc
  obtain rfl := Option.some.inj (hlast.symm.trans hc)
  exact ⟨by decide, fun h => absurd h (by decide)⟩

/-- The lines of a text that follow another one come after its lines. -/
theorem ofText_combine (before after : String) : ofText (combine before [after]) =
    ofText before ++ (ofText after).map (raise (Text.lineCount (before ++ "\n"))) := by
  rw [ofText_eq_filterMap, lines_combine, List.zipIdx_append, List.filterMap_append,
    filterMap_zipIdx_add, ← ofText_eq_filterMap, ofText_newline]
  rfl

end Line

-- ---------------------------------------------------------------------------
-- Blocks
-- ---------------------------------------------------------------------------

namespace Block

variable {xs ys : List Line} {n : Nat}

theorem cut_fst_eq_nil_iff :
    (cut xs).1 = [] ↔ ∀ first, xs.head? = some first → first.Starts := by
  cases xs with
  | nil => simp [cut]
  | cons line xs =>
    by_cases hs : line.Starts
    · obtain ⟨head, body, hline⟩ := hs
      simp [cut_cons_of_starts hline, Line.Starts, hline]
    · simp [cut_cons_of_not_starts hs, hs]

theorem cut_append (h : (cut ys).1 = []) :
    cut (xs ++ ys) = ((cut xs).1, (cut xs).2 ++ (cut ys).2) := by
  induction xs with
  | nil => exact Prod.ext h rfl
  | cons line xs ih =>
    rw [List.cons_append]
    by_cases hs : line.Starts
    · obtain ⟨head, body, hline⟩ := hs
      rw [cut_cons_of_starts hline, cut_cons_of_starts hline, ih]
      rfl
    · rw [cut_cons_of_not_starts hs, cut_cons_of_not_starts hs, ih]

theorem cut_map_raise (n : Nat) (lines : List Line) : cut (lines.map (Line.raise n)) =
    ((cut lines).1.map (Line.raise n), (cut lines).2.map (raise n)) := by
  induction lines with
  | nil => rfl
  | cons line lines ih =>
    rw [List.map_cons]
    by_cases hs : line.Starts
    · obtain ⟨head, body, hline⟩ := hs
      rw [cut_cons_of_starts hline, @cut_cons_of_starts (line.raise n) _ _ _ hline, ih,
        List.flatMap_map]
      rfl
    · have hr : ¬ (line.raise n).Starts := hs
      rw [cut_cons_of_not_starts hs, cut_cons_of_not_starts hr, ih]
      rfl

@[simp] theorem raise_head (n : Nat) (b : Block) : (b.raise n).head = b.head := rfl

@[simp] theorem raise_body (n : Nat) (b : Block) : (b.raise n).body = b.body := rfl

@[simp] theorem raise_line (n : Nat) (b : Block) : (b.raise n).line = b.line + n := rfl

theorem define_raise (n : Nat) (b : Block) (known : List Definition) :
    (b.raise n).define (known.map (Definition.raise n)) =
      ((b.define known).map (Definition.raise n)).mapError (DefinitionFault.raise n) := by
  have hfind : ∀ name, (known.map (Definition.raise n)).find? (·.name == name) =
      (known.find? (·.name == name)).map (Definition.raise n) := fun name => List.find?_map
  simp only [define_eq, raise_head, raise_body, raise_line, hfind]
  cases b.head.symbol? with
  | none => rfl
  | some name =>
    dsimp only
    cases known.find? (·.name == name) with
    | some first => rfl
    | none =>
      dsimp only [Option.map_none]
      by_cases hbody : b.body.isEmpty = true
      · rw [if_pos hbody]
        exact if_pos hbody
      by_cases hself : b.body.any (·.isOperator b.head.text) = true
      · rw [if_neg hbody, if_pos hself]
        exact (if_neg hbody).trans (if_pos hself)
      rw [if_neg hbody, if_neg hself]
      refine ((if_neg hbody).trans (if_neg hself)).trans ?_
      cases hnode : Node.ofTokens b.body with
      | ok node => rfl
      | error fault =>
        rcases Node.fault_of_ofTokens hnode with rfl | rfl | rfl | rfl <;> rfl

theorem exists_mem_of_define_eq_duplicate {b : Block} {known : List Definition} {name : String}
    {first : Option Int} (h : b.define known = .error (.duplicateSymbol name first)) :
    b.head = .ofName name ∧ ∃ d ∈ known, d.name = name ∧ first = some (d.line : Int) := by
  rw [define_eq] at h
  split at h
  · cases h
  · rename_i found hfound
    split at h
    · rename_i d hd
      cases h
      have hname : d.name = name := by simpa using List.find?_some hd
      exact ⟨Token.symbol?_eq_some_iff.mp hfound, d, List.mem_of_find?_eq_some hd, hname, rfl⟩
    · split at h
      · cases h
      · split at h
        · cases h
        · rcases Node.fault_of_ofTokens (exceptMap_eq_error.mp h) with hf | hf | hf | hf <;>
            cases hf

theorem Written.raise {b : Block} {d : Definition} (h : b.Written d) (n : Nat) :
    (b.raise n).Written (d.raise n) :=
  ⟨h.head, congrArg (· + n) h.line, h.body, h.no_self, h.node⟩

end Block

-- ---------------------------------------------------------------------------
-- Readings
-- ---------------------------------------------------------------------------

namespace Reading

variable {known ds : List Definition} {bs cs : List Block} {xs ys : List Line} {n : Nat}

theorem result_ofBlocks_append : (ofBlocks known (bs ++ cs)).result =
    (ofBlocks known bs).result >>= fun ds => (ofBlocks ds cs).result := by
  induction bs generalizing known with
  | nil => rfl
  | cons b bs ih =>
    rw [List.cons_append, ofBlocks, ofBlocks]
    split
    · rfl
    · exact ih

theorem result_ofBlocks_raise (n : Nat) (known : List Definition) (bs : List Block) :
    (ofBlocks (known.map (Definition.raise n)) (bs.map (Block.raise n))).result =
      ((ofBlocks known bs).result.map (List.map (Definition.raise n))).mapError
        (LocatedFault.raise n) := by
  induction bs generalizing known with
  | nil => rfl
  | cons b bs ih =>
    rw [List.map_cons, ofBlocks, ofBlocks, Block.define_raise]
    cases b.define known with
    | error fault => rfl
    | ok d => simpa [Except.map, Except.mapError] using ih (known ++ [d])

theorem result_ofBlocks_eq_duplicate {es₁ es₂ : List Definition} {d e : Definition}
    (hw : List.Forall₂ Block.Written cs (es₁ ++ e :: es₂))
    (hnodup : ((known ++ es₁).map Definition.name).Nodup) (hd : d ∈ known) (hde : d.name = e.name) :
    (ofBlocks known cs).result =
      .error ⟨.duplicateSymbol e.name (some d.line), some e.line⟩ := by
  induction es₁ generalizing known cs with
  | nil =>
    rw [List.append_nil] at hnodup
    rcases hw with _ | ⟨hc, -⟩
    rename_i c cs
    have hfind : known.find? (·.name == e.name) = some d :=
      (Block.find?_eq_some_iff hnodup).mpr ⟨hd, hde⟩
    have hdup : c.define known = .error (.duplicateSymbol e.name (some d.line)) := by
      rw [Block.define_eq, Token.symbol?_eq_some_iff.mpr hc.head]
      dsimp only
      rw [hfind]
    rw [ofBlocks, hdup, hc.line]
    rfl
  | cons e₁ es₁ ih =>
    rcases hw with _ | ⟨hc, hcs⟩
    rename_i c cs
    rw [List.append_cons] at hnodup
    have hnew : ((known ++ [e₁]).map Definition.name).Nodup := by
      rw [List.map_append] at hnodup
      exact (List.nodup_append.mp hnodup).1
    rw [ofBlocks, Block.define_eq_ok_iff.mpr ⟨(nodup_concat_iff.mp hnew).1, hc⟩]
    exact ih hcs hnodup (List.mem_append_left _ hd)

theorem exists_define_eq_error {f : LocatedFault} (h : (ofBlocks known bs).result = .error f) :
    ∃ earlier b later before, bs = earlier ++ b :: later ∧
      (ofBlocks known earlier).result = .ok before ∧ b.define before = .error f.fault ∧
      f.line = some b.line := by
  induction bs generalizing known with
  | nil => cases h
  | cons b bs ih =>
    rw [ofBlocks] at h
    split at h
    · rename_i fault hb
      obtain rfl : ⟨fault, some b.line⟩ = f := Except.error.inj h
      exact ⟨[], b, bs, known, rfl, rfl, hb, rfl⟩
    · rename_i d hd
      obtain ⟨earlier, b', later, before, rfl, hbefore, hb'⟩ := ih h
      refine ⟨b :: earlier, b', later, before, rfl, ?_, hb'⟩
      rw [ofBlocks, hd]
      exact hbefore

theorem ofLines_of_cut_eq (hx : xs ≠ []) (h : Block.cut xs = ([], bs)) :
    ofLines xs = ofBlocks [] bs := by
  rw [ofLines, h]
  cases bs with
  | nil =>
    cases Block.cut_eq_iff.mp h
    exact absurd rfl hx
  | cons b bs => rfl

/-- Lines that begin with a definition are read after those before them. -/
theorem result_ofLines_append (hx : xs ≠ []) (hy : (Block.cut ys).1 = []) :
    (ofLines (xs ++ ys)).result =
      (ofLines xs).result >>= fun ds => (ofBlocks ds (Block.cut ys).2).result := by
  have hcut := @Block.cut_append xs ys hy
  cases hloose : (Block.cut xs).1 with
  | nil =>
    have hxcut : Block.cut xs = ([], (Block.cut xs).2) := Prod.ext hloose rfl
    rw [hloose] at hcut
    rw [ofLines_of_cut_eq hx hxcut, ofLines_of_cut_eq (by simp [hx]) hcut, result_ofBlocks_append]
  | cons line loose =>
    have hxcut : Block.cut xs = (line :: loose, (Block.cut xs).2) := Prod.ext hloose rfl
    rw [ofLines, ofLines, hcut, hxcut]
    rfl

theorem result_ofLines_raise (n : Nat) (lines : List Line) :
    (ofLines (lines.map (Line.raise n))).result =
      ((ofLines lines).result.map (List.map (Definition.raise n))).mapError
        (LocatedFault.raise n) := by
  rw [ofLines, ofLines, Block.cut_map_raise]
  obtain ⟨loose, blocks⟩ := Block.cut lines
  cases loose with
  | cons line loose => rfl
  | nil =>
    cases blocks with
    | nil => rfl
    | cons b bs => exact result_ofBlocks_raise n [] (b :: bs)

theorem exists_line_of_result_eq_duplicate {lines : List Line} {name : String}
    {first : Option Int} {line : Option Nat}
    (h : (ofLines lines).result = .error ⟨.duplicateSymbol name first, line⟩) :
    ∃ k : Nat, first = some (k : Int) := by
  rw [ofLines] at h
  split at h
  · cases h
  · cases h
  · obtain ⟨-, b, -, ds, -, -, hb, -⟩ := exists_define_eq_error h
    obtain ⟨-, d, -, -, hfirst⟩ := Block.exists_mem_of_define_eq_duplicate hb
    exact ⟨d.line, hfirst⟩

end Reading

-- ---------------------------------------------------------------------------
-- Two texts
-- ---------------------------------------------------------------------------

namespace Definition

variable {before after : String} {ds es : List Definition}

theorem readAll_combine_of_ne_nil (hbefore : Line.ofText before ≠ [])
    (hafter : (Block.cut (Line.ofText after)).1 = []) :
    readAll (combine before [after]) = readAll before >>= fun ds => (Reading.ofBlocks ds
      ((Block.cut (Line.ofText after)).2.map
        (Block.raise (Text.lineCount (before ++ "\n"))))).result := by
  rw [readAll, Reading.ofText, Line.ofText_combine, Reading.result_ofLines_append hbefore,
    Block.cut_map_raise]
  · rfl
  · rw [Block.cut_map_raise, hafter]
    rfl

theorem readAll_combine_of_eq_nil (hbefore : Line.ofText before = []) :
    readAll (combine before [after]) =
      ((readAll after).map (List.map (raise (Text.lineCount (before ++ "\n"))))).mapError
        (LocatedFault.raise (Text.lineCount (before ++ "\n"))) := by
  rw [readAll, Reading.ofText, Line.ofText_combine, hbefore, List.nil_append,
    Reading.result_ofLines_raise]
  rfl

theorem ne_nil_of_readAll (h : readAll before = .ok ds) : Line.ofText before ≠ [] :=
  (Reading.result_ofLines_eq_ok_iff.mp h).1

theorem nodup_of_readAll (h : readAll before = .ok ds) : (ds.map name).Nodup := by
  obtain ⟨-, -, -, hnodup, -⟩ := Reading.result_ofLines_eq_ok_iff.mp h
  exact hnodup

theorem map_name_raise (n : Nat) (es : List Definition) :
    (es.map (raise n)).map name = es.map name := by
  rw [List.map_map]
  rfl

theorem readAll_combine_eq_error {f : LocatedFault}
    (hafter : (Block.cut (Line.ofText after)).1 = []) (hf : readAll before = .error f)
    (hne : f.fault ≠ .noDefinitions) : readAll (combine before [after]) = .error f := by
  have hbefore : Line.ofText before ≠ [] := by
    intro hnil
    rw [readAll, Reading.ofText, hnil] at hf
    exact hne (congrArg LocatedFault.fault (Except.error.inj hf).symm)
  rw [readAll_combine_of_ne_nil hbefore hafter, hf]
  rfl

theorem exists_blocks_of_readAll (hds : readAll before = .ok ds) (hes : readAll after = .ok es) :
    ∃ blocks, List.Forall₂ Block.Written blocks
        (es.map (raise (Text.lineCount (before ++ "\n")))) ∧
      readAll (combine before [after]) = (Reading.ofBlocks ds blocks).result := by
  obtain ⟨-, blocks, hc, -, hw⟩ := Reading.result_ofLines_eq_ok_iff.mp hes
  refine ⟨blocks.map (Block.raise (Text.lineCount (before ++ "\n"))), ?_, ?_⟩
  · rw [List.forall₂_map_left_iff, List.forall₂_map_right_iff]
    exact hw.imp fun _ _ h => h.raise _
  · rw [readAll_combine_of_ne_nil (ne_nil_of_readAll hds) (congrArg Prod.fst hc.cut_eq), hds,
      hc.cut_eq]
    rfl

theorem readAll_combine_eq_ok (hds : readAll before = .ok ds) (hes : readAll after = .ok es)
    (hnew : ∀ d ∈ ds, ∀ e ∈ es, d.name ≠ e.name) : readAll (combine before [after]) =
      .ok (ds ++ es.map (raise (Text.lineCount (before ++ "\n")))) := by
  obtain ⟨blocks, hw, hread⟩ := exists_blocks_of_readAll hds hes
  rw [hread]
  refine (Reading.result_ofBlocks_eq_ok_iff (nodup_of_readAll hds)).mpr ⟨_, rfl, ?_, hw⟩
  rw [List.map_append, map_name_raise]
  exact List.nodup_append.mpr
    ⟨nodup_of_readAll hds, nodup_of_readAll hes, by simpa using hnew⟩

theorem readAll_combine_eq_duplicate {es₁ es₂ : List Definition} {d e : Definition}
    (hds : readAll before = .ok ds) (hes : readAll after = .ok (es₁ ++ e :: es₂))
    (hnew : ∀ d ∈ ds, ∀ e ∈ es₁, d.name ≠ e.name) (hd : d ∈ ds) (hde : d.name = e.name) :
    readAll (combine before [after]) = .error ⟨.duplicateSymbol e.name (some d.line),
      some (e.line + Text.lineCount (before ++ "\n"))⟩ := by
  obtain ⟨blocks, hw, hread⟩ := exists_blocks_of_readAll hds hes
  have hnodup := nodup_of_readAll hes
  rw [List.map_append] at hnodup hw
  rw [hread]
  refine Reading.result_ofBlocks_eq_duplicate hw ?_ hd hde
  rw [List.map_append, map_name_raise]
  exact List.nodup_append.mpr
    ⟨nodup_of_readAll hds, (List.nodup_append.mp hnodup).1, by simpa using hnew⟩

/-- What a grammar and a dictionary after it read as, where the dictionary begins with a definition
or is blank. A fault of the grammar stays what it is. After a blank grammar the dictionary is read
alone, further down. Otherwise the definitions of the dictionary follow those of the grammar, unless
the two define a symbol both: then the first such symbol in the dictionary is reported, with the
line where the grammar defines it. -/
theorem readAll_combine (before after : String)
    (hafter : ∀ first, (Line.ofText after).head? = some first → first.Starts) :
    let n := Text.lineCount (before ++ "\n")
    let whole := readAll (combine before [after])
    (∀ f, readAll before = .error f → f.fault ≠ .noDefinitions → whole = .error f) ∧
    (Line.ofText before = [] →
      whole = ((readAll after).map (List.map (raise n))).mapError (LocatedFault.raise n) ∧
      ∀ name first line, readAll after = .error ⟨.duplicateSymbol name first, line⟩ →
        ∃ k : Nat, first = some (k : Int) ∧
          whole = .error ⟨.duplicateSymbol name (some (k + n)), line.map (· + n)⟩ ∧
          (DefinitionFault.duplicateSymbol name (some (k + n))).hint =
            some s!"<{name}> was first declared at line {k + n}") ∧
    (∀ ds, readAll before = .ok ds → Line.ofText after = [] → whole = .ok ds) ∧
    (∀ ds es, readAll before = .ok ds → readAll after = .ok es →
      (∀ d ∈ ds, ∀ e ∈ es, d.name ≠ e.name) → whole = .ok (ds ++ es.map (raise n))) ∧
    (∀ ds es₁ e es₂ d, readAll before = .ok ds → readAll after = .ok (es₁ ++ e :: es₂) →
      (∀ d ∈ ds, ∀ e ∈ es₁, d.name ≠ e.name) → d ∈ ds → d.name = e.name →
      whole = .error ⟨.duplicateSymbol e.name (some d.line), some (e.line + n)⟩) := by
  intro n whole
  have hloose := Block.cut_fst_eq_nil_iff.mpr hafter
  refine ⟨fun f => readAll_combine_eq_error hloose, fun hbefore => ?_, fun ds hds hnil => ?_,
    fun ds es => readAll_combine_eq_ok, fun ds es₁ e es₂ d => readAll_combine_eq_duplicate⟩
  · have hwhole : whole = _ := readAll_combine_of_eq_nil hbefore
    refine ⟨hwhole, fun name first line hdup => ?_⟩
    obtain ⟨k, rfl⟩ := Reading.exists_line_of_result_eq_duplicate hdup
    have hpos : ((k : Int) + n) ≠ 0 := by
      have := Text.lineCount_newline_pos before
      omega
    refine ⟨k, rfl, ?_, ?_⟩
    · rw [hwhole, hdup]
      rfl
    · rw [DefinitionFault.hint, if_neg hpos]
      rfl
  · show readAll (combine before [after]) = _
    rw [readAll_combine_of_ne_nil (ne_nil_of_readAll hds) hloose, hds, hnil]
    rfl

theorem readAll_combine_carriage_return :
    (∀ first, (Line.ofText "<b> ::= y\n<a> ::= z").head? = some first → first.Starts) ∧
      readAll (combine "<a> ::= x\r" ["<b> ::= y\n<a> ::= z"]) =
        .error ⟨.duplicateSymbol "a" (some 1), some 3⟩ := by
  have hbefore : Line.ofText "<a> ::= x\r" =
      [⟨1, [⟨"<a>", false⟩, ⟨"::=", false⟩, ⟨"x", false⟩]⟩] := by decide
  have hafter : Line.ofText "<b> ::= y\n<a> ::= z" =
      [⟨1, [⟨"<b>", false⟩, ⟨"::=", false⟩, ⟨"y", false⟩]⟩,
        ⟨2, [⟨"<a>", false⟩, ⟨"::=", false⟩, ⟨"z", false⟩]⟩] := by decide
  have hstarts : ∀ first,
      (Line.ofText "<b> ::= y\n<a> ::= z").head? = some first → first.Starts := by
    rw [hafter]
    rintro _ ⟨⟩
    exact ⟨_, _, rfl⟩
  refine ⟨hstarts, ?_⟩
  have hds : readAll "<a> ::= x\r" = .ok [⟨"a", .sequence [.run [.literal "x"]], 1⟩] := by
    rw [readAll, Reading.ofText, hbefore]
    cbv
  have hes : readAll "<b> ::= y\n<a> ::= z" = .ok ([⟨"b", .sequence [.run [.literal "y"]], 1⟩] ++
      ⟨"a", .sequence [.run [.literal "z"]], 2⟩ :: []) := by
    rw [readAll, Reading.ofText, hafter]
    cbv
  exact (readAll_combine "<a> ::= x\r" "<b> ::= y\n<a> ::= z" hstarts).2.2.2.2 _ _ _ _ _ hds hes
    (by simp) (.head _) rfl

end Definition

end BackusNaur

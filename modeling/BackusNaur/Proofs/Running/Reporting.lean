import BackusNaur.Proofs.Document.Json
import BackusNaur.Proofs.Matching.Reports
import BackusNaur.Proofs.Running.Steps

/-!
# What a match reports

A run that matches shows the result of its steps, as JSON that can be read back or as an outcome
line with the report, and nothing but the result decides its exit code. If a step fails, the run
writes no output and shows the failure.

`run_reports`: what every run whose arguments ask for a match leaves behind.
-/

namespace BackusNaur

-- ---------------------------------------------------------------------------
-- The result as JSON
-- ---------------------------------------------------------------------------

namespace MatchResult

variable {r : MatchResult} {limit : Option Nat}

theorem faithful_ofTexts (texts : List String) : Json.Faithful limit (.ofTexts texts) := by
  refine .list fun item hitem => ?_
  obtain ⟨text, -, rfl⟩ := List.mem_map.mp hitem
  exact .text text

theorem toValue_eq (symbol : String) (r : MatchResult) : r.toValue symbol =
    .table (Json.keyed [("symbol", .text (.ofString symbol)), ("matched", .bool r.matched),
      ("end", .integer r.stop), ("tokens", .ofTexts r.tokens),
      ("spans", .table (Json.keyed (r.spans.map fun entry => (entry.1, .ofTexts entry.2))))]) := by
  simp [toValue, Json.keyed]

theorem faithful_toValue (symbol : String) (hnames : (r.spans.map Prod.fst).Nodup)
    (hstop : Json.Fits limit r.stop.natAbs) : Json.Faithful limit (r.toValue symbol) := by
  have hspans : Json.Faithful limit
      (.table (Json.keyed (r.spans.map fun entry => (entry.1, .ofTexts entry.2)))) := by
    refine .table (by simpa [Function.comp_def] using hnames) fun field hfield => ?_
    obtain ⟨entry, -, rfl⟩ := List.mem_map.mp hfield
    exact faithful_ofTexts entry.2
  rw [toValue_eq]
  refine .table (by simp) ?_
  simp only [List.forall_mem_cons, List.not_mem_nil, false_implies, implies_true, and_true]
  exact ⟨.text symbol, .bool _, .integer _ hstop, faithful_ofTexts _, hspans⟩

theorem fits_of_lt {most n : Nat} (hmost : 0 < most) (h : n < Nat.pow 10 most) :
    Json.Fits (some most) n := by
  rintro _ ⟨⟩
  exact (Nat.length_toDigits_le_iff (by decide) hmost).mpr h

theorem fits_of_not_long {n : Int} (h : Text.isLongInteger n = false) :
    Json.Fits (some Text.numeralLimit) n.natAbs :=
  fits_of_lt (by decide) (Nat.lt_of_not_le (of_decide_eq_false h))

end MatchResult

theorem Grammar.nodup_names_of_run {g : Grammar} {stack : Nat} {symbol input : String}
    {r : MatchResult} (h : g.run stack symbol input = .ok r) : (r.spans.map Prod.fst).Nodup := by
  obtain ⟨reach, -, rfl⟩ := run_eq_ok_iff.mp h
  exact (SpanTable.lists_ofSpans _ reach.spans).names_increasing.imp ne_of_lt

namespace CommandLine

variable {w : Surroundings} {m : MatchRequest} {i : Invocation} {r : MatchResult}
  {given : Option Path} {symbol : String} {failure : Failure} {notice : Notice} {fault : Fault}
  {arguments : List String}

-- ---------------------------------------------------------------------------
-- What is written
-- ---------------------------------------------------------------------------

namespace MatchRequest

theorem Yields.with_json (h : m.Yields w given symbol r) (json : Bool) :
    Yields { m with json } w given symbol r := by
  obtain ⟨hsettings, hinput, hdepth, htext, hfiles, hgrammar, hsymbol, hrun⟩ := h
  refine ⟨hsettings, hinput, ?_, htext, hfiles, hgrammar, hsymbol, hrun⟩
  cases hdepth with
  | unset h => exact .unset h
  | bound h hpos => exact .bound h hpos

theorem Yields.nodup_names (h : m.Yields w given symbol r) : (r.spans.map Prod.fst).Nodup := by
  obtain ⟨-, -, -, -, -, -, -, hrun⟩ := h
  exact Grammar.nodup_names_of_run hrun

theorem Yields.answer_eq (h : m.Yields w given symbol r) :
    (Settings.load w.runtime w.disk w.environment {} given >>= m.answer w) =
      .ok (if r.matched then .success else .noMatch, m.display symbol r) := by
  obtain ⟨loaded, hload, hresult⟩ := exceptBind_eq_ok.mp (steps_eq_ok_iff.mpr ⟨symbol, h⟩)
  obtain ⟨-, -, -, -, -, -, hsymbol, -⟩ := h
  rw [exceptBind_eq_ok]
  refine ⟨loaded, hload, ?_⟩
  rw [answer, hresult, hsymbol]
  rfl

theorem Fails.answer_eq (h : m.Fails w given failure) :
    (Settings.load w.runtime w.disk w.environment {} given >>= m.answer w) = .error failure := by
  obtain hload | ⟨loaded, hload, hresult⟩ := exceptBind_eq_error.mp (steps_eq_error_iff.mpr h)
  · exact exceptBind_eq_error.mpr (.inl hload)
  · refine exceptBind_eq_error.mpr (.inr ⟨loaded, hload, ?_⟩)
    exact exceptBind_eq_error.mpr (.inl hresult)

end MatchRequest

-- ---------------------------------------------------------------------------
-- Runs
-- ---------------------------------------------------------------------------

def Outcome.Returns (o : Outcome) (code : Nat) : Prop := ∃ e, o.ending = .exit e ∧ e.code = code

theorem Invocation.exists_outcome_eq (i : Invocation) (w : Surroundings) :
    ∃ log, i.outcome w = { Outcome.ofAnswer w.runtime i.verbose
      (Settings.load w.runtime w.disk w.environment {} i.settingsFile >>= fun s =>
        i.command.answer w s) with log } ∧ (i.isLogged w = false → log = []) := by
  unfold outcome
  cases hload : Settings.load w.runtime w.disk w.environment {} i.settingsFile with
  | error failure =>
    refine ⟨[], ?_, fun _ => rfl⟩
    cases failure <;> rfl
  | ok s =>
    refine ⟨_, rfl, fun h => ?_⟩
    simp [h]

theorem exists_run_eq (hi : Invocation.ofArguments w.runtime.keepsDashes arguments = .ok i)
    (hm : i.command = .matching m) :
    ∃ log, run arguments w = { Outcome.ofAnswer w.runtime i.verbose
      (Settings.load w.runtime w.disk w.environment {} i.settingsFile >>= m.answer w) with log } ∧
        (i.isLogged w = false → log = []) := by
  obtain ⟨log, hlog, hsilent⟩ := i.exists_outcome_eq w
  rw [hm] at hlog
  exact ⟨log, by rw [run, hi]; exact hlog, hsilent⟩

theorem run_of_yields (hi : Invocation.ofArguments w.runtime.keepsDashes arguments = .ok i)
    (hm : i.command = .matching m) (h : m.Yields w i.settingsFile symbol r) :
    ∃ log, run arguments w =
      { ending := .exit (if r.matched then .success else .noMatch)
        output := m.display symbol r
        log } := by
  obtain ⟨log, hrun, -⟩ := exists_run_eq hi hm
  rw [h.answer_eq] at hrun
  exact ⟨log, hrun⟩

theorem run_of_fails (hi : Invocation.ofArguments w.runtime.keepsDashes arguments = .ok i)
    (hm : i.command = .matching m) (h : m.Fails w i.settingsFile failure) :
    ∃ log, run arguments w = { Outcome.ofFailure w.runtime i.verbose failure with log } ∧
      (i.isLogged w = false → log = []) := by
  obtain ⟨log, hrun, hsilent⟩ := exists_run_eq hi hm
  rw [h.answer_eq] at hrun
  exact ⟨log, hrun, hsilent⟩

theorem returns_of_yields (hi : Invocation.ofArguments w.runtime.keepsDashes arguments = .ok i)
    (hm : i.command = .matching m) (h : m.Yields w i.settingsFile symbol r) :
    (run arguments w).Returns (if r.matched then 0 else 1) := by
  obtain ⟨log, hrun⟩ := run_of_yields hi hm h
  rw [hrun]
  refine ⟨_, rfl, ?_⟩
  split <;> rfl

theorem display_json (hm : m.json = true) (hnames : (r.spans.map Prod.fst).Nodup)
    {limit : Option Nat} (hstop : Json.Fits limit r.stop.natAbs) :
    Json.read? (m.display symbol r).toList limit = some (r.toValue symbol) := by
  rw [MatchRequest.display, if_pos hm]
  exact Json.read?_renderLine (MatchResult.faithful_toValue symbol hnames hstop) true

theorem display_plain (hm : m.json = false) : m.display symbol r =
    "<" ++ symbol ++ ">: " ++ (if r.matched then "MATCHED" else "NOT MATCHED") ++ "\n" ++
      if r.report = "" then "" else "\n" ++ r.report := by
  simp only [MatchRequest.display, hm, Bool.false_eq_true, if_false, String.isEmpty_iff]
  rfl

/-- A run that matches returns 0 if all of the text was matched and 1 if not, however the result is
written: as JSON it is read back as it is, with any limit on numbers that its end keeps; plainly it
is the outcome line and, after an empty line, the report if there is one. If a step fails with a
notice, the run returns 2, writes no output and ends its error text with this notice. A fault
without a notice ends the run. There is always either a result or a failure. -/
theorem run_reports (w : Surroundings)
    (hi : Invocation.ofArguments w.runtime.keepsDashes arguments = .ok i)
    (hm : i.command = .matching m) :
    (∀ symbol r, m.Yields w i.settingsFile symbol r →
      (run arguments w).Returns (if r.matched then 0 else 1) ∧
      (run arguments w).errors = "" ∧
      (m.json = true →
        Json.read? (run arguments w).output.toList none = some (r.toValue symbol) ∧
        (Text.isLongInteger r.stop = false →
          Json.read? (run arguments w).output.toList = some (r.toValue symbol))) ∧
      (m.json = false → (run arguments w).output =
        "<" ++ symbol ++ ">: " ++ (if r.matched then "MATCHED" else "NOT MATCHED") ++ "\n" ++
          if r.report = "" then "" else "\n" ++ r.report) ∧
      ∀ arguments' json, Invocation.ofArguments w.runtime.keepsDashes arguments' =
          .ok { i with command := .matching { m with json } } →
        (run arguments' w).Returns (if r.matched then 0 else 1)) ∧
    (∀ notice, m.Fails w i.settingsFile (.reported notice) →
      (run arguments w).Returns 2 ∧ (run arguments w).output = "" ∧
      ∀ time, ∃ told, (run arguments w).errorText time = told ++
          (notice.render i.verbose
            (if i.verbose then some (Notice.excerpt (w.runtime.trace notice)) else none)
              ++ "\n") ∧
        (i.isLogged w = false → told = "")) ∧
    (∀ fault, m.Fails w i.settingsFile (.unexplained fault) →
      (run arguments w).ending = .fault fault) ∧
    ((∃ symbol r, m.Yields w i.settingsFile symbol r) ↔
      ¬ ∃ failure, m.Fails w i.settingsFile failure) := by
  refine ⟨fun symbol r h => ?_, fun notice h => ?_, fun fault h => ?_,
    MatchRequest.yields_iff_not_fails⟩
  · obtain ⟨log, hrun⟩ := run_of_yields hi hm h
    have hnames := h.nodup_names
    refine ⟨returns_of_yields hi hm h, ?_, fun hjson => ?_, fun hjson => ?_,
      fun arguments' json hi' => returns_of_yields hi' rfl (h.with_json json)⟩
    · rw [hrun]
    · rw [hrun]
      exact ⟨display_json hjson hnames nofun,
        fun hstop => display_json hjson hnames (MatchResult.fits_of_not_long hstop)⟩
    · rw [hrun]
      exact display_plain hjson
  · obtain ⟨log, hrun, hsilent⟩ := run_of_fails hi hm h
    rw [hrun]
    refine ⟨⟨.failure, rfl, rfl⟩, rfl, fun time => ⟨_, rfl, fun hquiet => ?_⟩⟩
    rw [hsilent hquiet]
    rfl
  · obtain ⟨log, hrun, -⟩ := run_of_fails hi hm h
    rw [hrun]
    rfl

def pair : Surroundings where
  runtime := .basic
  disk :=
    { base := ⟨"/", []⟩
      entries := [(⟨"/", ["g"]⟩, .file "<a> ::= <b> y\n<b> ::= x".toUTF8.toList)] }

theorem pair_reports : ∃ r : MatchResult, r.matched = true ∧ r.spans = [("b", ["[ x ]"])] ∧
    (run ["match", "g", "a", "--text", "x y", "--json"] pair).Returns 0 ∧
    Json.read? (run ["match", "g", "a", "--text", "x y", "--json"] pair).output.toList =
      some (r.toValue "a") := by
  let m : MatchRequest := ⟨⟨some "g", []⟩, some "a", some (.given (some "x y")), .unset, true⟩
  let a : Definition := ⟨"a", .sequence [.run [.reference "b", .literal "y"]], 1⟩
  let b : Definition := ⟨"b", .sequence [.run [.literal "x"]], 2⟩
  let g : Grammar := ⟨some "g", [a, b], ⟨Grammar.tableOf [a, b], 50, by decide⟩⟩
  let s : Sources := ⟨⟨"g", "<a> ::= <b> y\n<b> ::= x"⟩, []⟩
  have hi : Invocation.ofArguments pair.runtime.keepsDashes
      ["match", "g", "a", "--text", "x y", "--json"] =
        .ok ⟨none, none, false, .matching m⟩ := by decide +kernel
  have hsettings : Settings.load pair.runtime pair.disk pair.environment {} none = .ok {} := by
    decide +kernel
  have hsources : pair.disk.readSources pair.runtime.codecs ({} : Settings).encoding "g" [] =
      .ok s := by decide +kernel
  have hlines : Line.ofText s.text =
      [⟨1, [⟨"<a>", false⟩, ⟨"::=", false⟩, ⟨"<b>", false⟩, ⟨"y", false⟩]⟩,
        ⟨2, [⟨"<b>", false⟩, ⟨"::=", false⟩, ⟨"x", false⟩]⟩] := by decide
  have hroom : Reading.overflow? pair.runtime.room s.text = none := by
    rw [Reading.overflow?, hlines]
    decide +kernel
  have hread : Definition.readAll s.text = .ok [a, b] := by
    rw [Definition.readAll, Reading.ofText, hlines]
    cbv
  have hg : Grammar.load pair.runtime pair.disk "g" [] {} = .ok g := by
    have hsorted : Grammar.sorted [a, b] = [a, b] := by cbv
    have htable : Matcher.ofTable (Grammar.tableOf [a, b]) = .ok g.matcher := dif_pos (by decide)
    rw [Grammar.load, hsources]
    refine Grammar.ofSourcesIn_eq_ok_iff.mpr ⟨hroom, exceptMapError_eq_ok.mpr ?_⟩
    rw [Grammar.ofText_of_readAll hread, hsorted, htable]
    rfl
  have hrun : g.run pair.runtime.stack "a" "x y" =
      .ok ⟨true, 2, ["x", "y"], [("b", ["[ x ]"])]⟩ := by decide +kernel
  have hyields : m.Yields pair none "a" ⟨true, 2, ["x", "y"], [("b", ["[ x ]"])]⟩ :=
    .intro hsettings rfl (.unset rfl) (.given "x y") rfl hg rfl hrun
  obtain ⟨hreturns, -, hjson, -⟩ := (run_reports pair hi rfl).1 "a" _ hyields
  exact ⟨_, rfl, rfl, hreturns, (hjson rfl).2 (by decide +kernel)⟩

end CommandLine

end BackusNaur

import BackusNaur.CommandLine.Run
import BackusNaur.Proofs.Loading.Settings
import BackusNaur.Proofs.Matching.Lookups
import BackusNaur.Proofs.Reading.Locating

/-!
# The steps of a match

A match on the command line loads the settings, looks whether there is a text, takes the depth bound
of the request, reads the text, loads the grammar and matches. Each step is a call of the library;
an argument that was lost only shows where it is used.

`MatchRequest.steps_eq_ok_iff` and `MatchRequest.steps_eq_error_iff`: what the steps give and where
they fail.
-/

namespace BackusNaur

theorem Grammar.maxDepth_of_load {rt : Runtime} {disk : Disk} {path : String}
    {dictionaries : List String} {s : Settings} {g : Grammar}
    (h : load rt disk path dictionaries s = .ok g) : g.matcher.maxDepth = s.maxDepth := by
  obtain ⟨sources, -, h⟩ := exceptBind_eq_ok.mp h
  obtain ⟨-, h⟩ := ofSourcesIn_eq_ok_iff.mp h
  obtain ⟨definitions, -, h⟩ := exceptBind_eq_ok.mp (exceptMapError_eq_ok.mp h)
  obtain ⟨m, hm, h⟩ := exceptBind_eq_ok.mp (exceptMapError_eq_ok.mp h)
  cases h
  exact (Matcher.ofTable_eq_ok_iff.mp hm).2

namespace CommandLine

variable {w : Surroundings} {s s' : Settings} {m : MatchRequest} {failure : Failure} {g : Grammar}
  {r : MatchResult} {symbol text : String} {given : Option Path} {encoding : CodePoints}

-- ---------------------------------------------------------------------------
-- Arguments
-- ---------------------------------------------------------------------------

theorem Argument.get_eq_ok_iff {a : Argument} {what : Lost} :
    a.get what = .ok text ↔ a = some text := by
  cases a <;> simp [get]

theorem exists_eq_map_some {arguments : List Argument} {sources : List Source}
    (h : List.Forall₂ (fun a source =>
      (a.get .path >>= w.disk.readSource w.runtime.codecs encoding) = .ok source)
        arguments sources) :
    ∃ paths : List String, arguments = paths.map some := by
  induction h with
  | nil => exact ⟨[], rfl⟩
  | cons hread _ ih =>
    obtain ⟨path, hpath, -⟩ := exceptBind_eq_ok.mp hread
    obtain rfl := Argument.get_eq_ok_iff.mp hpath
    obtain ⟨paths, rfl⟩ := ih
    exact ⟨path :: paths, rfl⟩

theorem GrammarFiles.load_eq_ok_iff {files : GrammarFiles} :
    files.load w s = .ok g ↔ ∃ path dictionaries, files = ⟨some path, dictionaries.map some⟩ ∧
      Grammar.load w.runtime w.disk path dictionaries s = .ok g := by
  constructor
  · intro h
    obtain ⟨sources, hread, -⟩ := exceptBind_eq_ok.mp h
    obtain ⟨first, hfirst, hread⟩ := exceptBind_eq_ok.mp hread
    obtain ⟨others, hothers, -⟩ := exceptBind_eq_ok.mp hread
    obtain ⟨path, hpath, -⟩ := exceptBind_eq_ok.mp hfirst
    obtain ⟨dictionaries, hdictionaries⟩ := exists_eq_map_some (mapM_eq_ok_iff.mp hothers)
    have hfiles : files = ⟨some path, dictionaries.map some⟩ := by
      cases files
      simp_all [Argument.get_eq_ok_iff]
    exact ⟨path, dictionaries, hfiles, by rwa [hfiles, load_of_texts] at h⟩
  · rintro ⟨path, dictionaries, rfl, h⟩
    rw [load_of_texts, h]

inductive InputSource.Gives (w : Surroundings) (encoding : CodePoints) :
    InputSource → String → Prop
  | given (text : String) : Gives w encoding (.given (some text)) text
  | standardInput : Gives w encoding .standardInput w.input
  | file {path text : String}
    (h : w.disk.readText w.runtime.codecs (Path.ofText path) encoding = .ok text) :
    Gives w encoding (.file (some path)) text

theorem InputSource.read_eq_some_iff {input : InputSource} :
    input.read w encoding = .ok (some text) ↔ input.Gives w encoding text := by
  constructor
  · intro h
    cases input with
    | given a =>
      obtain rfl := Except.ok.inj h
      exact .given text
    | standardInput =>
      obtain rfl := Option.some.inj (Except.ok.inj h)
      exact .standardInput
    | file a =>
      obtain ⟨path, hpath, hread⟩ := exceptBind_eq_ok.mp h
      obtain ⟨found, hfound, hsame⟩ := exceptBind_eq_ok.mp hread
      obtain rfl := Argument.get_eq_ok_iff.mp hpath
      obtain rfl := Option.some.inj (exceptPure_eq_ok.mp hsame)
      exact .file hfound
  · intro h
    cases h with
    | given => rfl
    | standardInput => rfl
    | file h => exact exceptBind_eq_ok.mpr ⟨_, rfl, exceptBind_eq_ok.mpr ⟨text, h, rfl⟩⟩

namespace MatchRequest

-- ---------------------------------------------------------------------------
-- The steps
-- ---------------------------------------------------------------------------

/-- The settings of a match: the depth bound of the request, if it has one, is positive and takes
the place of the other. -/
inductive Adjusts (m : MatchRequest) (s : Settings) : Settings → Prop
  | unset (h : m.maxDepth = .unset) : Adjusts m s s
  | bound {n : Int} (h : m.maxDepth = .bound n) (hpos : 1 ≤ n) :
    Adjusts m s { s with maxDepth := n }

theorem settings_eq_ok_iff : m.settings s = .ok s' ↔ m.Adjusts s s' := by
  constructor
  · intro h
    unfold settings at h
    split at h
    · obtain rfl := Except.ok.inj h
      exact .unset ‹_›
    · cases h
    · split at h
      · cases h
      · obtain ⟨hpos, rfl⟩ := Settings.withDepth_eq_ok_iff.mp h
        exact .bound ‹_› hpos
  · rintro (h | ⟨h, hpos⟩)
    · simp [settings, h]
    · simp [settings, h, Int.not_lt.mpr hpos, Settings.withDepth_eq_ok_iff, hpos]

def noInput : Failure :=
  refusal "No input given" (some "Pass --text TEXT or --input FILE (use '-' for stdin)")

theorem prepare_eq (m : MatchRequest) (w : Surroundings) (s : Settings) :
    m.prepare w s = m.input.elim (.error noInput) fun input => do
      let s ← m.settings s
      return (s, ← input.read w s.encoding) := by
  unfold prepare
  cases m.input <;> rfl

theorem prepare_eq_ok_iff {text : Argument} : m.prepare w s = .ok (s', text) ↔ ∃ input,
    m.input = some input ∧ m.settings s = .ok s' ∧ input.read w s'.encoding = .ok text := by
  rw [prepare_eq]
  cases m.input with
  | none => simp
  | some input =>
    simp only [Option.elim_some, exceptBind_eq_ok, exceptPure_eq_ok, Prod.mk.injEq,
      Option.some.injEq]
    grind

theorem resultIn_eq_ok_iff {stack : Nat} {found : Argument} : m.resultIn stack g found = .ok r ↔
    ∃ symbol text, found = some text ∧ m.symbol = some symbol ∧
      g.run stack symbol text = .ok r := by
  simp only [resultIn, exceptBind_eq_ok, Argument.get_eq_ok_iff, exceptMapError_eq_ok]
  grind

/-- The result of a match for a symbol: every step gives what the steps after it work on. -/
inductive Yields (m : MatchRequest) (w : Surroundings) (given : Option Path) (symbol : String)
    (r : MatchResult) : Prop
  | intro {loaded s : Settings} {input : InputSource} {text path : String}
    {dictionaries : List String} {g : Grammar}
    (hsettings : Settings.load w.runtime w.disk w.environment {} given = .ok loaded)
    (hinput : m.input = some input) (hdepth : m.Adjusts loaded s)
    (htext : input.Gives w s.encoding text)
    (hfiles : m.files = ⟨some path, dictionaries.map some⟩)
    (hgrammar : Grammar.load w.runtime w.disk path dictionaries s = .ok g)
    (hsymbol : m.symbol = some symbol) (hrun : g.run w.runtime.stack symbol text = .ok r) :
    Yields m w given symbol r

/-- The failure of a match: some step fails, and every step before it does not. -/
inductive Fails (m : MatchRequest) (w : Surroundings) (given : Option Path) : Failure → Prop
  | settings {failure : Failure}
    (h : Settings.load w.runtime w.disk w.environment {} given = .error failure) :
    Fails m w given failure
  | noInput {loaded : Settings}
    (hsettings : Settings.load w.runtime w.disk w.environment {} given = .ok loaded)
    (h : m.input = none) : Fails m w given noInput
  | depth {loaded : Settings} {input : InputSource} {failure : Failure}
    (hsettings : Settings.load w.runtime w.disk w.environment {} given = .ok loaded)
    (hinput : m.input = some input) (h : m.settings loaded = .error failure) :
    Fails m w given failure
  | text {loaded s : Settings} {input : InputSource} {failure : Failure}
    (hsettings : Settings.load w.runtime w.disk w.environment {} given = .ok loaded)
    (hinput : m.input = some input) (hdepth : m.Adjusts loaded s)
    (h : input.read w s.encoding = .error failure) : Fails m w given failure
  | grammar {loaded s : Settings} {input : InputSource} {found : Argument} {failure : Failure}
    (hsettings : Settings.load w.runtime w.disk w.environment {} given = .ok loaded)
    (hinput : m.input = some input) (hdepth : m.Adjusts loaded s)
    (htext : input.read w s.encoding = .ok found)
    (h : m.files.load w s = .error failure) : Fails m w given failure
  | matching {loaded s : Settings} {input : InputSource} {found : Argument} {g : Grammar}
    {failure : Failure}
    (hsettings : Settings.load w.runtime w.disk w.environment {} given = .ok loaded)
    (hinput : m.input = some input) (hdepth : m.Adjusts loaded s)
    (htext : input.read w s.encoding = .ok found) (hgrammar : m.files.load w s = .ok g)
    (h : m.resultIn w.runtime.stack g found = .error failure) : Fails m w given failure

theorem prepare_eq_error_iff : m.prepare w s = .error failure ↔
    m.input = none ∧ failure = noInput ∨ ∃ input, m.input = some input ∧
      (m.settings s = .error failure ∨
        ∃ s', m.Adjusts s s' ∧ input.read w s'.encoding = .error failure) := by
  rw [prepare_eq]
  cases m.input with
  | none => simp [eq_comm]
  | some input =>
    simp only [Option.elim_some, exceptBind_eq_error, exceptPure_ne_error, and_false, exists_false,
      or_false, settings_eq_ok_iff]
    simp

theorem steps_eq_ok_iff :
    (Settings.load w.runtime w.disk w.environment {} given >>= m.result w) = .ok r ↔
      ∃ symbol, m.Yields w given symbol r := by
  simp only [result, exceptBind_eq_ok]
  constructor
  · rintro ⟨loaded, hsettings, ⟨s, found⟩, hprepare, g, hgrammar, h⟩
    obtain ⟨input, hinput, hdepth, htext⟩ := prepare_eq_ok_iff.mp hprepare
    obtain ⟨path, dictionaries, hfiles, hgrammar⟩ := GrammarFiles.load_eq_ok_iff.mp hgrammar
    obtain ⟨symbol, text, rfl, hsymbol, hrun⟩ := resultIn_eq_ok_iff.mp h
    exact ⟨symbol, hsettings, hinput, settings_eq_ok_iff.mp hdepth,
      InputSource.read_eq_some_iff.mp htext, hfiles, hgrammar, hsymbol, hrun⟩
  · rintro ⟨symbol, hsettings, hinput, hdepth, htext, hfiles, hgrammar, hsymbol, hrun⟩
    exact ⟨_, hsettings, _, prepare_eq_ok_iff.mpr ⟨_, hinput, settings_eq_ok_iff.mpr hdepth,
      InputSource.read_eq_some_iff.mpr htext⟩, _,
      GrammarFiles.load_eq_ok_iff.mpr ⟨_, _, hfiles, hgrammar⟩,
      resultIn_eq_ok_iff.mpr ⟨_, _, rfl, hsymbol, hrun⟩⟩

theorem steps_eq_error_iff :
    (Settings.load w.runtime w.disk w.environment {} given >>= m.result w) = .error failure ↔
      m.Fails w given failure := by
  simp only [result, exceptBind_eq_error, prepare_eq_error_iff]
  constructor
  · rintro (h | ⟨loaded, hsettings, (⟨hinput, rfl⟩ | ⟨input, hinput, h | ⟨s, hdepth, h⟩⟩) |
      ⟨⟨s, found⟩, hprepare, h⟩⟩)
    · exact .settings h
    · exact .noInput hsettings hinput
    · exact .depth hsettings hinput h
    · exact .text hsettings hinput hdepth h
    · obtain ⟨input, hinput, hdepth, htext⟩ := prepare_eq_ok_iff.mp hprepare
      rw [settings_eq_ok_iff] at hdepth
      obtain h | ⟨g, hgrammar, h⟩ := h
      · exact .grammar hsettings hinput hdepth htext h
      · exact .matching hsettings hinput hdepth htext hgrammar h
  · intro h
    cases h with
    | settings h => exact .inl h
    | noInput hsettings h => exact .inr ⟨_, hsettings, .inl (.inl ⟨h, rfl⟩)⟩
    | depth hsettings hinput h => exact .inr ⟨_, hsettings, .inl (.inr ⟨_, hinput, .inl h⟩)⟩
    | text hsettings hinput hdepth h =>
      exact .inr ⟨_, hsettings, .inl (.inr ⟨_, hinput, .inr ⟨_, hdepth, h⟩⟩)⟩
    | grammar hsettings hinput hdepth htext h =>
      have hprepare := prepare_eq_ok_iff.mpr ⟨_, hinput, settings_eq_ok_iff.mpr hdepth, htext⟩
      exact .inr ⟨_, hsettings, .inr ⟨_, hprepare, .inl h⟩⟩
    | matching hsettings hinput hdepth htext hgrammar h =>
      have hprepare := prepare_eq_ok_iff.mpr ⟨_, hinput, settings_eq_ok_iff.mpr hdepth, htext⟩
      exact .inr ⟨_, hsettings, .inr ⟨_, hprepare, .inr ⟨_, hgrammar, h⟩⟩⟩

/-- The steps of a match give a result or fail. -/
theorem yields_iff_not_fails : (∃ symbol r, m.Yields w given symbol r) ↔
    ¬ ∃ failure, m.Fails w given failure := by
  rw [exists_comm]
  simp only [← steps_eq_ok_iff, ← steps_eq_error_iff, exceptExists_eq_ok_iff, not_exists, ne_eq]

end MatchRequest

end CommandLine

end BackusNaur

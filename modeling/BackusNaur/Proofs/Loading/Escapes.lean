import BackusNaur.CommandLine.Run
import BackusNaur.Proofs.Loading.Settings
import BackusNaur.Proofs.Reading.Overflow

/-!
# What loading ends with

Loading the settings and then a grammar with them ends with a grammar, with a diagnostic, or with a
fault that no diagnostic is made of and that the command line does not catch.

`Grammar.load_escapes_iff`: the faults that escape and when, for every content of the files, and
that there is a grammar or a diagnostic in all other cases. A run that checks a grammar ends with a
fault in the same cases.
-/

namespace BackusNaur

variable {rt : Runtime} {disk : Disk} {env : Environment} {root : Path} {given : Option Path}
  {path : String} {dictionaries : List String} {sources : Sources} {fault : Fault}
  {failure : Failure} {settings : Settings}

-- ---------------------------------------------------------------------------
-- Grammars
-- ---------------------------------------------------------------------------

theorem SourceMap.cause_of_relocate? {map : SourceMap} {d moved : Diagnostic}
    (h : map.relocate? d = some moved) : moved.cause = d.cause := by
  unfold relocate? at h
  split at h
  · cases h
    rfl
  · obtain ⟨place, -, h⟩ := Option.bind_eq_some_iff.mp h
    dsimp only at h
    split at h
    · obtain ⟨first, -, h⟩ := Option.bind_eq_some_iff.mp h
      cases h
      rfl
    · cases h
      rfl

namespace Grammar

theorem cause_relocated (sources : Sources) (d : Diagnostic) :
    (relocated sources d).cause = d.cause := by
  unfold relocated
  split
  · cases h : (SourceMap.ofSources sources.all).relocate? d with
    | none => rfl
    | some moved => exact SourceMap.cause_of_relocate? h
  · rfl

theorem ofLoading_of_ofSources {sources : Sources} {d : Diagnostic}
    (h : ofSources sources settings = .error d) : (Failure.ofDiagnostic d).OfLoading := by
  simp only [ofSources, ofText, exceptMapError_eq_error, exceptBind_eq_error] at h
  obtain ⟨_, ⟨fault, -, rfl⟩ | ⟨_, -, names, -, rfl⟩, rfl⟩ := h
  · exact .definition (cause_relocated ..)
  · exact .undefinedSymbols (cause_relocated ..)

theorem ofSourcesIn_eq_unexplained_iff {room : Room} :
    ofSourcesIn room sources settings = .error (.unexplained fault) ↔
      fault = .stackOverflow ∧ Reading.Overflows room (Line.ofText sources.text) := by
  rw [← Reading.exists_overflow?_iff, ofSourcesIn]
  cases Reading.overflow? room sources.text with
  | some before => simp [eq_comm]
  | none => simp [exceptMapError_eq_error, Failure.ofDiagnostic]

/-- Once the files have been read, a fault escapes only where there is no room for a definition. -/
theorem load_eq_unexplained_iff :
    load rt disk path dictionaries settings = .error (.unexplained fault) ↔
      disk.readSources rt.codecs settings.encoding path dictionaries =
        .error (.unexplained fault) ∨
      ∃ sources, disk.readSources rt.codecs settings.encoding path dictionaries = .ok sources ∧
        fault = .stackOverflow ∧ Reading.Overflows rt.room (Line.ofText sources.text) := by
  simp only [load, exceptBind_eq_error, ofSourcesIn_eq_unexplained_iff]

theorem ofLoading_of_load (h : load rt disk path dictionaries settings = .error failure) :
    failure.OfLoading := by
  rcases exceptBind_eq_error.mp h with h | ⟨sources, -, h⟩
  · exact Disk.ofLoading_of_readSources h
  · rw [ofSourcesIn] at h
    split at h
    · cases h
      exact .unexplained _
    · obtain ⟨d, hd, rfl⟩ := exceptMapError_eq_error.mp h
      exact ofLoading_of_ofSources hd

-- ---------------------------------------------------------------------------
-- Settings and grammar
-- ---------------------------------------------------------------------------

/-- The fault that escapes from loading the settings and then a grammar with them: one of the
settings file, or else one of the first file that cannot be read, or else that of a definition that
there is no room for. -/
inductive LoadEscapes (rt : Runtime) (disk : Disk) (env : Environment) (root : Path)
    (given : Option Path) (path : String) (dictionaries : List String) : Fault → Prop
  | settings {fault : Fault} (h : Settings.Escapes rt disk root given fault) :
    LoadEscapes rt disk env root given path dictionaries fault
  | file {settings : Settings} {before after : List String} {next : String} {fault : Fault}
    (hsettings : Settings.load rt disk env root given = .ok settings)
    (hfiles : path :: dictionaries = before ++ next :: after)
    (hbefore : ∀ earlier ∈ before, ∃ source,
      disk.readSource rt.codecs settings.encoding earlier = .ok source)
    (h : disk.Escapes rt.codecs settings.encoding (Path.ofText next) fault) :
    LoadEscapes rt disk env root given path dictionaries fault
  | overflow {settings : Settings} {sources : Sources}
    (hsettings : Settings.load rt disk env root given = .ok settings)
    (hsources : disk.readSources rt.codecs settings.encoding path dictionaries = .ok sources)
    (h : Reading.Overflows rt.room (Line.ofText sources.text)) :
    LoadEscapes rt disk env root given path dictionaries .stackOverflow

theorem loadEscapes_iff :
    (Settings.load rt disk env root given >>= load rt disk path dictionaries) =
      .error (.unexplained fault) ↔ LoadEscapes rt disk env root given path dictionaries fault := by
  simp only [exceptBind_eq_error, Settings.load_eq_unexplained_iff, load_eq_unexplained_iff,
    Disk.readSources_eq_unexplained_iff]
  constructor
  · rintro (h | ⟨settings, hsettings, ⟨before, next, after, hfiles, hbefore, h⟩ |
      ⟨sources, hsources, rfl, h⟩⟩)
    · exact .settings h
    · exact .file hsettings hfiles hbefore h
    · exact .overflow hsettings hsources h
  · rintro (h | ⟨hsettings, hfiles, hbefore, h⟩ | ⟨hsettings, hsources, h⟩)
    · exact .inl h
    · exact .inr ⟨_, hsettings, .inl ⟨_, _, _, hfiles, hbefore, h⟩⟩
    · exact .inr ⟨_, hsettings, .inr ⟨_, hsources, rfl, h⟩⟩

theorem ofLoading_of_settings_load
    (h : (Settings.load rt disk env root given >>= load rt disk path dictionaries) =
      .error failure) : failure.OfLoading := by
  rcases exceptBind_eq_error.mp h with h | ⟨settings, -, h⟩
  · exact Settings.ofLoading_of_load h
  · exact ofLoading_of_load h

end Grammar

-- ---------------------------------------------------------------------------
-- The command line
-- ---------------------------------------------------------------------------

namespace CommandLine

variable {verbose : Bool} {answer : Except Failure (Exit × String)}

/-- Every failure with a notice ends a run by its own exit. -/
theorem Outcome.ending_ofFailure_eq_fault_iff :
    (ofFailure rt verbose failure).ending = .fault fault ↔ failure = .unexplained fault := by
  cases failure <;> simp [ofFailure]

theorem Outcome.ending_ofAnswer_eq_fault_iff :
    (ofAnswer rt verbose answer).ending = .fault fault ↔ answer = .error (.unexplained fault) := by
  cases answer with
  | ok => simp [ofAnswer]
  | error => simp [ofAnswer, ending_ofFailure_eq_fault_iff]

theorem Command.answer_check_eq_error_iff {w : Surroundings} :
    (check ⟨some path, dictionaries.map some⟩).answer w settings = .error failure ↔
      Grammar.load w.runtime w.disk path dictionaries settings = .error failure := by
  simp only [answer, GrammarFiles.load_of_texts, exceptBind_eq_error, exceptPure_ne_error,
    and_false, exists_false, or_false]

/-- A check does nothing but load the settings and the grammar. -/
theorem Invocation.ending_check_eq_fault_iff (i : Invocation) (w : Surroundings) :
    (outcome { i with command := .check ⟨some path, dictionaries.map some⟩ } w).ending =
      .fault fault ↔
    (Settings.load w.runtime w.disk w.environment {} i.settingsFile >>=
      Grammar.load w.runtime w.disk path dictionaries) = .error (.unexplained fault) := by
  have hfile : settingsFile { i with command := .check ⟨some path, dictionaries.map some⟩ } =
      i.settingsFile := rfl
  rw [outcome, hfile]
  cases hload : Settings.load w.runtime w.disk w.environment {} i.settingsFile with
  | error failure => simp [Outcome.ending_ofFailure_eq_fault_iff, exceptBind_eq_error]
  | ok s =>
    simp [Outcome.ending_ofAnswer_eq_fault_iff, Command.answer_check_eq_error_iff,
      exceptBind_eq_error]

end CommandLine

-- ---------------------------------------------------------------------------
-- All that escapes
-- ---------------------------------------------------------------------------

namespace Grammar

/-- Loading the settings and then a grammar with them lets exactly the faults escape that
`LoadEscapes` tells of, and a check ends with just these. Otherwise there is a grammar, or a
diagnostic of the settings, of a file, of a definition or of undefined symbols. -/
theorem load_escapes_iff (rt : Runtime) (disk : Disk) (env : Environment) (root : Path)
    (given : Option Path) (path : String) (dictionaries : List String) :
    (∀ fault, (Settings.load rt disk env root given >>= load rt disk path dictionaries) =
      .error (.unexplained fault) ↔ LoadEscapes rt disk env root given path dictionaries fault) ∧
    ((¬ ∃ fault, LoadEscapes rt disk env root given path dictionaries fault) ↔
      (∃ g, (Settings.load rt disk env root given >>= load rt disk path dictionaries) = .ok g) ∨
      ∃ d, (Settings.load rt disk env root given >>= load rt disk path dictionaries) =
        .error (.ofDiagnostic d) ∧ (Failure.ofDiagnostic d).OfLoading) ∧
    ∀ (i : CommandLine.Invocation) (input : String) (fault : Fault),
      (CommandLine.Invocation.outcome
        { i with command := .check ⟨some path, dictionaries.map some⟩ }
        ⟨rt, disk, env, input⟩).ending = .fault fault ↔
      LoadEscapes rt disk env {} i.settingsFile path dictionaries fault := by
  refine ⟨fun fault => loadEscapes_iff, ?_, fun i input fault =>
    (i.ending_check_eq_fault_iff _).trans loadEscapes_iff⟩
  simp only [← loadEscapes_iff]
  cases hload : Settings.load rt disk env root given >>= load rt disk path dictionaries with
  | ok g => simp
  | error failure =>
    have hfailure := ofLoading_of_settings_load hload
    rcases hfailure.exists_eq with ⟨fault, rfl⟩ | ⟨d, rfl⟩
    · exact iff_of_false (fun h => h ⟨fault, rfl⟩) (by simp [Failure.ofDiagnostic])
    · exact iff_of_true (by simp [Failure.ofDiagnostic]) (.inr ⟨d, rfl, hfailure⟩)

def infiniteDepthDisk : Disk where
  base := ⟨"/", []⟩
  entries := [(⟨"/", [".bnfmatchrc"]⟩,
      .file "\x7b\"engine\": \x7b\"max_depth\": Infinity\x7d\x7d".toUTF8.toList),
    (⟨"/", ["g.bn"]⟩, .file "<a> ::= x".toUTF8.toList)]

/-- Loading does not always end with a grammar or a diagnostic: an infinite depth is no number that
can be rounded, and is not reported as a depth that is no integer. -/
theorem not_forall_load_reported :
    ¬ ∀ (rt : Runtime) (disk : Disk) (env : Environment) (root : Path) (given : Option Path)
      (path : String) (dictionaries : List String),
      (∃ g, (Settings.load rt disk env root given >>= load rt disk path dictionaries) = .ok g) ∨
      ∃ d, (Settings.load rt disk env root given >>= load rt disk path dictionaries) =
        .error (.ofDiagnostic d) := by
  intro h
  have hload : Settings.load .basic infiniteDepthDisk {} {} none =
      .error (.unexplained .infiniteDepth) := by decide +kernel
  have hreported := h .basic infiniteDepthDisk {} {} none "g.bn" []
  rw [hload] at hreported
  obtain ⟨_, ⟨⟩⟩ | ⟨_, ⟨⟩⟩ := hreported

end Grammar

end BackusNaur

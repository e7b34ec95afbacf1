import BackusNaur.Proofs.Running.Steps

/-!
# The depth bound that counts

A match takes its depth bound from the request, else from the environment, else from the settings
file, and else the usual one. The request and the environment change nothing else in the settings. A
bound that is there is checked in any case, also where another one counts.

`MatchRequest.depth_in_force`: the bound that counts and the failures of those that are not right,
for every table in the settings file, every environment and every request.
-/

namespace BackusNaur

def Environment.depth? (env : Environment) : Option String := env.maxDepth.filter (· ≠ "")

namespace Settings

variable {rt : Runtime} {d : Disk} {env : Environment} {root p : Path} {given : Option Path}
  {s s' : Settings} {file : Option (Path × List (CodePoints × Value))}
  {fields : List (CodePoints × Value)} {value : Value} {source text : String} {n : Int}
  {failure : Failure}

-- ---------------------------------------------------------------------------
-- Bounds that are not right
-- ---------------------------------------------------------------------------

inductive BadDepth (source : String) (value : Value) : Failure → Prop
  | notInteger {fault : Value.IntegerFault} (h : value.toInteger = .error fault)
    (hfinite : fault ≠ .infinite) :
    BadDepth source value (Settings.failure (some source) (.depthNotInteger fault.message))
  | notPositive {n : Int} (h : value.toInteger = .ok n) (hn : n < 1) :
    BadDepth source value (Settings.failure (some source) (.depthNotPositive n))

inductive BadEnvironment (source : Option String) (text : String) : Failure → Prop
  | notInteger {fault : Text.NumeralFault} (h : Text.readInt text = .error fault) :
    BadEnvironment source text (Settings.failure none (.environmentDepth text))
  | notPositive {n : Int} (h : Text.readInt text = .ok n) (hn : n < 1) :
    BadEnvironment source text (Settings.failure source (.depthNotPositive n))

-- ---------------------------------------------------------------------------
-- The environment
-- ---------------------------------------------------------------------------

theorem withEnvironment_eq (s : Settings) (env : Environment) :
    s.withEnvironment env = env.depth?.elim (.ok s) fun text =>
      match Text.readInt text with
      | .ok n => (s.withDepth (some n)).mapError .ofDiagnostic
      | .error _ => .error (Settings.failure none (.environmentDepth text)) := by
  obtain ⟨maxDepth, logLevel⟩ := env
  cases maxDepth with
  | none => rfl
  | some text =>
    by_cases hempty : text = ""
    · subst hempty
      rfl
    · have hdepth : Environment.depth? ⟨some text, logLevel⟩ = some text := by
        simp [Environment.depth?, Option.filter_some, hempty]
      simp only [hdepth, Option.elim_some]
      unfold withEnvironment
      split
      · exact absurd ‹_› hempty
      · rfl

theorem withEnvironment_eq_ok_iff : s.withEnvironment env = .ok s' ↔
    env.depth? = none ∧ s' = s ∨ ∃ text n, env.depth? = some text ∧ Text.readInt text = .ok n ∧
      1 ≤ n ∧ s' = { s with maxDepth := n } := by
  rw [withEnvironment_eq]
  cases env.depth? with
  | none => simp [eq_comm]
  | some text =>
    cases hread : Text.readInt text with
    | ok n => simp [withDepth_eq_ok_iff, hread]
    | error => simp [hread]

theorem exists_withEnvironment_iff : (∃ s', s.withEnvironment env = .ok s') ↔
    ∀ text, env.depth? = some text → ∃ n, Text.readInt text = .ok n ∧ 1 ≤ n := by
  simp only [withEnvironment_eq_ok_iff]
  cases env.depth? with
  | none => simp
  | some text => simp

theorem withEnvironment_eq_error (henv : env.depth? = some text)
    (h : BadEnvironment s.source text failure) : s.withEnvironment env = .error failure := by
  rw [withEnvironment_eq, henv]
  cases h with
  | notInteger h => simp [h]
  | notPositive h hn => simp [h, withDepth_eq_error hn]

-- ---------------------------------------------------------------------------
-- The settings file
-- ---------------------------------------------------------------------------

/-- The section `engine` of a table: one that is missing or says nothing counts as empty. -/
def engine? (fields : List (CodePoints × Value)) : Option (List (CodePoints × Value)) :=
  match Value.find? "engine" fields with
  | none => some []
  | some (.table engine) => some engine
  | some other => if other.isTruthy then none else some []

def depthValue? (file : Option (Path × List (CodePoints × Value))) : Option Value := do
  let (_, fields) ← file
  Value.find? "max_depth" (← engine? fields)

def ofFound : Option (Path × List (CodePoints × Value)) → Except Failure Settings
  | none => .ok {}
  | some (p, fields) => ofDocument p.text (.table fields)

theorem ofDocument_table (source : String) (fields : List (CodePoints × Value)) :
    ofDocument source (.table fields) =
      (engine? fields).elim (.error (Settings.failure (some source) .engineNotTable))
        (ofSection source) := by
  unfold engine?
  rw [ofDocument]
  cases Value.find? "engine" fields with
  | none => rfl
  | some engine =>
    cases engine with
    | table => rfl
    | _ =>
      dsimp only
      split <;> rfl

theorem ofSection_eq_ok (h : ofSection source fields = .ok s) : 1 ≤ s.maxDepth ∧
    (Value.find? "max_depth" fields).elim (.ok defaultMaxDepth) (depthOf source) =
      .ok s.maxDepth := by
  rw [ofSection_eq] at h
  obtain ⟨depth, hdepth, h⟩ := exceptBind_eq_ok.mp h
  obtain ⟨_, hcheck, h⟩ := exceptBind_eq_ok.mp h
  obtain ⟨encoding, -, h⟩ := exceptBind_eq_ok.mp h
  obtain rfl := exceptPure_eq_ok.mp h
  exact ⟨checkDepth_eq_ok_iff.mp (exceptMapError_eq_ok.mp hcheck), hdepth⟩

theorem exists_encodingOf_iff : (∃ encoding, encodingOf value = .ok encoding) ↔
    (value.isTruthy = true → value.hasLongNumber = false) := by
  simp [exceptExists_eq_ok_iff, encodingOf_eq_error_iff]

/-- A section asks for settings that can be used. -/
structure Usable (engine : List (CodePoints × Value)) : Prop where
  depth : ∀ value, Value.find? "max_depth" engine = some value →
    ∃ n, value.toInteger = .ok n ∧ 1 ≤ n
  encoding : ∀ value, Value.find? "encoding" engine = some value →
    value.isTruthy = true → value.hasLongNumber = false

theorem exists_ofSection_iff : (∃ s, ofSection source fields = .ok s) ↔ Usable fields := by
  have hparts : (∃ s, ofSection source fields = .ok s) ↔
      (∃ n, (Value.find? "max_depth" fields).elim (.ok defaultMaxDepth) (depthOf source) = .ok n ∧
        1 ≤ n) ∧
      ∃ encoding, (Value.find? "encoding" fields).elim (.ok (.ofString "utf-8")) encodingOf =
        .ok encoding := by
    simp only [ofSection_eq, exceptBind_eq_ok, exceptMapError_eq_ok, checkDepth_eq_ok_iff,
      exceptPure_eq_ok]
    grind
  rw [hparts]
  constructor
  · rintro ⟨⟨n, hn, hpos⟩, encoding, hencoding⟩
    refine ⟨fun value hvalue => ?_, fun value hvalue => ?_⟩
    · rw [hvalue] at hn
      exact ⟨n, depthOf_eq_ok_iff.mp hn, hpos⟩
    · rw [hvalue] at hencoding
      exact exists_encodingOf_iff.mp ⟨encoding, hencoding⟩
  · intro h
    constructor
    · cases hvalue : Value.find? "max_depth" fields with
      | none => exact ⟨defaultMaxDepth, rfl, by decide⟩
      | some value =>
        obtain ⟨n, hn, hpos⟩ := h.depth value hvalue
        exact ⟨n, depthOf_eq_ok_iff.mpr hn, hpos⟩
    · cases hvalue : Value.find? "encoding" fields with
      | none => exact ⟨_, rfl⟩
      | some value => exact exists_encodingOf_iff.mpr (h.encoding value hvalue)

theorem depthOf_eq_error {fault : Value.IntegerFault} (h : value.toInteger = .error fault)
    (hfinite : fault ≠ .infinite) : depthOf source value =
      .error (Settings.failure (some source) (.depthNotInteger fault.message)) := by
  rw [depthOf, h]
  cases fault with
  | infinite => exact absurd rfl hfinite
  | _ => rfl

theorem ofSection_eq_error (hfind : Value.find? "max_depth" fields = some value)
    (h : BadDepth source value failure) : ofSection source fields = .error failure := by
  rw [ofSection_eq, hfind, Option.elim_some]
  cases h with
  | notInteger h hfinite =>
    exact exceptBind_eq_error.mpr (.inl (depthOf_eq_error h hfinite))
  | notPositive h hn =>
    refine exceptBind_eq_error.mpr (.inr ⟨_, depthOf_eq_ok_iff.mpr h,
      exceptBind_eq_error.mpr (.inl ?_)⟩)
    simp only [checkDepth, if_pos hn]
    rfl

theorem ofFound_eq_ok (h : ofFound file = .ok s) : 1 ≤ s.maxDepth ∧
    (depthValue? file = none ∧ s.maxDepth = defaultMaxDepth ∨
      ∃ value, depthValue? file = some value ∧ value.toInteger = .ok s.maxDepth) := by
  cases file with
  | none =>
    cases h
    exact ⟨by decide, .inl ⟨rfl, rfl⟩⟩
  | some found =>
    obtain ⟨p, fields⟩ := found
    rw [ofFound, ofDocument_table] at h
    cases hengine : engine? fields with
    | none => simp [hengine] at h
    | some engine =>
      rw [hengine] at h
      have hvalue : depthValue? (some (p, fields)) = Value.find? "max_depth" engine := by
        simp [depthValue?, hengine]
      obtain ⟨hpos, hdepth⟩ := ofSection_eq_ok h
      rw [hvalue]
      refine ⟨hpos, ?_⟩
      cases hfind : Value.find? "max_depth" engine with
      | none => simp_all
      | some value => simp_all [depthOf_eq_ok_iff]

theorem exists_ofFound_iff : (∃ s, ofFound file = .ok s) ↔
    ∀ found ∈ file, ∃ engine, engine? found.2 = some engine ∧ Usable engine := by
  cases file with
  | none => simp [ofFound]
  | some found =>
    obtain ⟨p, fields⟩ := found
    simp only [ofFound, ofDocument_table, Option.mem_some_iff, forall_eq']
    cases engine? fields with
    | none => simp
    | some engine => simp [exists_ofSection_iff]

theorem ofFound_eq_error (hvalue : depthValue? (some (p, fields)) = some value)
    (h : BadDepth p.text value failure) : ofFound (some (p, fields)) = .error failure := by
  obtain ⟨engine, hengine, hfind⟩ := Option.bind_eq_some_iff.mp hvalue
  rw [ofFound, ofDocument_table, hengine]
  exact ofSection_eq_error hfind h

-- ---------------------------------------------------------------------------
-- Loading
-- ---------------------------------------------------------------------------

theorem load_eq (rt : Runtime) (d : Disk) (env : Environment) (root : Path) (given : Option Path) :
    load rt d env root given = load rt d {} root given >>= fun s => s.withEnvironment env := by
  unfold load
  split
  · rfl
  · cases locate d (d.absolute root) given with
    | error => rfl
    | ok found =>
      cases given <;> cases found
      case some.none => rfl
      all_goals
        simp only [bind, Except.bind]
        cases ofFile rt d _ <;> rfl

/-- What a run finds for its settings: no file, where none was asked for, or a file with a table in
it. -/
inductive Finds (rt : Runtime) (d : Disk) (root : Path) (given : Option Path) :
    Option (Path × List (CodePoints × Value)) → Prop
  | nothing (hroot : '\x00' ∉ root.text.toList) (hgiven : given = none)
    (h : locate d (d.absolute root) given = .ok none) : Finds rt d root given none
  | table {p : Path} {fields : List (CodePoints × Value)}
    (hroot : '\x00' ∉ root.text.toList)
    (hplace : locate d (d.absolute root) given = .ok (some p))
    (h : readDocument rt d p = .ok (.table fields)) : Finds rt d root given (some (p, fields))

/-- Where the environment is silent, the settings are those of the file. -/
theorem Finds.load_silent (h : Finds rt d root given file) :
    load rt d {} root given = ofFound file := by
  unfold load
  cases h with
  | nothing hroot hgiven h =>
    subst hgiven
    rw [if_neg hroot, h]
    rfl
  | table hroot hplace h =>
    rw [if_neg hroot, hplace]
    cases given <;> simp [bind, Except.bind, ofFile, ofFound, h]
    all_goals cases ofDocument _ _ <;> rfl

theorem exists_table_of_ofFile (h : ofFile rt d (some p) = .ok s) :
    ∃ fields, readDocument rt d p = .ok (.table fields) := by
  obtain ⟨document, hread, h⟩ := exceptBind_eq_ok.mp h
  unfold ofDocument at h
  split at h
  · exact ⟨_, hread⟩
  · cases h

theorem exists_finds (h : load rt d env root given = .ok s) :
    ∃ file, Finds rt d root given file := by
  unfold load at h
  split at h
  · cases h
  · rename_i hroot
    obtain ⟨found, hfound, h⟩ := exceptBind_eq_ok.mp h
    cases found with
    | none =>
      cases given with
      | none => exact ⟨none, .nothing hroot rfl hfound⟩
      | some => cases h
    | some p =>
      have hfile : ∃ own, ofFile rt d (some p) = .ok own := by
        cases given <;> exact (exceptBind_eq_ok.mp h).imp fun own h => h.1
      obtain ⟨own, hown⟩ := hfile
      obtain ⟨fields, hread⟩ := exists_table_of_ofFile hown
      exact ⟨some (p, fields), .table hroot hfound hread⟩

end Settings

-- ---------------------------------------------------------------------------
-- The request
-- ---------------------------------------------------------------------------

namespace CommandLine

variable {w : Surroundings} {root : Path} {given : Option Path}
  {file : Option (Path × List (CodePoints × Value))} {loaded s : Settings}

/-- The depth bound that counts, of what a settings file, the environment and a request ask for. -/
inductive DepthInForce (file : Option Value) (environment : Option String) :
    DepthRequest → Int → Prop
  | request (n : Int) : DepthInForce file environment (.bound n) n
  | environment {text : String} {n : Int} (h : environment = some text)
    (hn : Text.readInt text = .ok n) : DepthInForce file environment .unset n
  | file {value : Value} {n : Int} (henvironment : environment = none) (h : file = some value)
    (hn : value.toInteger = .ok n) : DepthInForce file environment .unset n
  | usual (henvironment : environment = none) (hfile : file = none) :
    DepthInForce file environment .unset 50

def badRequest (n : Int) : Failure :=
  MatchRequest.refusal s!"--max-depth must be positive, got {n}"

namespace MatchRequest

theorem settings_eq_error {m : MatchRequest} {n : Int} (h : m.maxDepth = .bound n) (hn : n < 1) :
    m.settings s = .error (badRequest n) := by
  simp [settings, h, hn, badRequest]

theorem exists_adjusts_iff {m : MatchRequest} : (∃ s', m.Adjusts s s') ↔
    m.maxDepth = .unset ∨ ∃ n, m.maxDepth = .bound n ∧ 1 ≤ n := by
  constructor
  · rintro ⟨_, h | ⟨h, hpos⟩⟩
    · exact .inl h
    · exact .inr ⟨_, h, hpos⟩
  · rintro (h | ⟨n, h, hpos⟩)
    · exact ⟨_, .unset h⟩
    · exact ⟨_, .bound h hpos⟩

theorem exists_settings_iff {m : MatchRequest}
    (hfile : Settings.Finds w.runtime w.disk root given file) :
    (∃ s, (Settings.load w.runtime w.disk w.environment root given >>= m.settings) = .ok s) ↔
      (∀ found ∈ file, ∃ engine, Settings.engine? found.2 = some engine ∧
        Settings.Usable engine) ∧
      (∀ text, w.environment.depth? = some text → ∃ n, Text.readInt text = .ok n ∧ 1 ≤ n) ∧
      (m.maxDepth = .unset ∨ ∃ n, m.maxDepth = .bound n ∧ 1 ≤ n) := by
  rw [Settings.load_eq, hfile.load_silent, ← Settings.exists_ofFound_iff]
  constructor
  · rintro ⟨s, h⟩
    obtain ⟨loaded, hload, hs⟩ := exceptBind_eq_ok.mp h
    obtain ⟨own, hown, henvironment⟩ := exceptBind_eq_ok.mp hload
    exact ⟨⟨own, hown⟩, Settings.exists_withEnvironment_iff.mp ⟨loaded, henvironment⟩,
      exists_adjusts_iff.mp ⟨s, settings_eq_ok_iff.mp hs⟩⟩
  · rintro ⟨⟨own, hown⟩, henvironment, hrequest⟩
    obtain ⟨loaded, hload⟩ : ∃ loaded, own.withEnvironment w.environment = .ok loaded :=
      Settings.exists_withEnvironment_iff.mpr henvironment
    obtain ⟨s, hs⟩ : ∃ s, m.Adjusts loaded s := exists_adjusts_iff.mpr hrequest
    exact ⟨s, exceptBind_eq_ok.mpr
      ⟨loaded, exceptBind_eq_ok.mpr ⟨own, hown, hload⟩, settings_eq_ok_iff.mpr hs⟩⟩

/-- The settings of a match are those of the file with another bound. -/
theorem Adjusts.in_force {m : MatchRequest} (hs : m.Adjusts loaded s)
    (hload : Settings.load w.runtime w.disk w.environment root given = .ok loaded) :
    1 ≤ s.maxDepth ∧
      ∃ file own, Settings.Finds w.runtime w.disk root given file ∧
        DepthInForce (Settings.depthValue? file) w.environment.depth? m.maxDepth s.maxDepth ∧
        Settings.load w.runtime w.disk {} root given = .ok own ∧
        s = { own with maxDepth := s.maxDepth } := by
  rw [Settings.load_eq] at hload
  obtain ⟨own, hown, hload⟩ := exceptBind_eq_ok.mp hload
  obtain ⟨file, hfile⟩ := Settings.exists_finds hown
  obtain ⟨hpos, hdepth⟩ := Settings.ofFound_eq_ok (hfile.load_silent ▸ hown)
  rw [Settings.withEnvironment_eq_ok_iff] at hload
  cases hs with
  | @bound n h hn =>
    refine ⟨hn, file, own, hfile, h ▸ .request n, hown, ?_⟩
    obtain ⟨-, rfl⟩ | ⟨_, _, -, -, -, rfl⟩ := hload <;> rfl
  | unset h =>
    rw [h]
    -- Only where the request and the environment are silent, the bound of the file is looked at.
    obtain ⟨henvironment, rfl⟩ | ⟨text, n, htext, hread, hn, rfl⟩ := hload
    · refine ⟨hpos, file, loaded, hfile, ?_, hown, rfl⟩
      obtain ⟨hnone, hdepth⟩ | ⟨value, hvalue, hdepth⟩ := hdepth
      · exact hdepth ▸ .usual henvironment hnone
      · exact .file henvironment hvalue hdepth
    · exact ⟨hn, file, own, hfile, .environment htext hread, hown, rfl⟩

/-- The depth bound that counts is positive and comes from the request, else from the environment,
else from the settings file, else it is the usual one; nothing else in the settings changes, and the
grammar is searched as deep. There are settings exactly if every bound that is there is right. One
that is not fails unless something before it has failed, whatever comes after it: first that of the
file, then that of the environment, then that of the request. -/
theorem depth_in_force (w : Surroundings) (root : Path) (given : Option Path) (m : MatchRequest) :
    (∀ loaded s, Settings.load w.runtime w.disk w.environment root given = .ok loaded →
      m.settings loaded = .ok s → 1 ≤ s.maxDepth ∧
      (∃ file own, Settings.Finds w.runtime w.disk root given file ∧
        DepthInForce (Settings.depthValue? file) w.environment.depth? m.maxDepth s.maxDepth ∧
        Settings.load w.runtime w.disk {} root given = .ok own ∧
        s = { own with maxDepth := s.maxDepth }) ∧
      ∀ prepared text g, m.prepare w loaded = .ok (prepared, text) →
        m.files.load w prepared = .ok g → g.matcher.maxDepth = s.maxDepth) ∧
    (∀ file, Settings.Finds w.runtime w.disk root given file →
      ((∃ s, (Settings.load w.runtime w.disk w.environment root given >>= m.settings) = .ok s) ↔
        (∀ found ∈ file, ∃ engine, Settings.engine? found.2 = some engine ∧
          Settings.Usable engine) ∧
        (∀ text, w.environment.depth? = some text → ∃ n, Text.readInt text = .ok n ∧ 1 ≤ n) ∧
        (m.maxDepth = .unset ∨ ∃ n, m.maxDepth = .bound n ∧ 1 ≤ n))) ∧
    (∀ p fields value failure, Settings.Finds w.runtime w.disk root given (some (p, fields)) →
      Settings.depthValue? (some (p, fields)) = some value →
      Settings.BadDepth p.text value failure →
      Settings.load w.runtime w.disk w.environment root given = .error failure) ∧
    (∀ failure, Settings.load w.runtime w.disk {} root given = .error failure →
      Settings.load w.runtime w.disk w.environment root given = .error failure) ∧
    (∀ own text failure, Settings.load w.runtime w.disk {} root given = .ok own →
      w.environment.depth? = some text → Settings.BadEnvironment own.source text failure →
      Settings.load w.runtime w.disk w.environment root given = .error failure) ∧
    ∀ loaded n, Settings.load w.runtime w.disk w.environment root given = .ok loaded →
      m.maxDepth = .bound n → n < 1 → m.settings loaded = .error (badRequest n) ∧
      (m.input ≠ none → m.result w loaded = .error (badRequest n)) := by
  refine ⟨fun loaded s hload hs => ?_, fun file hfile => exists_settings_iff hfile, ?_, ?_, ?_, ?_⟩
  · obtain ⟨hpos, hforce⟩ := (settings_eq_ok_iff.mp hs).in_force hload
    refine ⟨hpos, hforce, ?_⟩
    intro prepared text g hprepare hg
    obtain ⟨_, -, hprepared, -⟩ := prepare_eq_ok_iff.mp hprepare
    obtain rfl : s = prepared := Except.ok.inj (hs.symm.trans hprepared)
    obtain ⟨path, dictionaries, -, hg⟩ := GrammarFiles.load_eq_ok_iff.mp hg
    exact Grammar.maxDepth_of_load hg
  · intro p fields value failure hfile hvalue h
    rw [Settings.load_eq, hfile.load_silent, Settings.ofFound_eq_error hvalue h]
    rfl
  · intro failure h
    rw [Settings.load_eq, h]
    rfl
  · intro own text failure h htext hbad
    rw [Settings.load_eq, h]
    exact Settings.withEnvironment_eq_error htext hbad
  · intro loaded n _ hbound hn
    have hsettings : m.settings loaded = .error (badRequest n) := settings_eq_error hbound hn
    refine ⟨hsettings, fun hinput => ?_⟩
    obtain ⟨input, hinput⟩ := Option.ne_none_iff_exists'.mp hinput
    exact exceptBind_eq_error.mpr (.inl (prepare_eq_error_iff.mpr
      (.inr ⟨input, hinput, .inl hsettings⟩)))

def layered : Surroundings where
  runtime := .basic
  disk :=
    { base := ⟨"/", []⟩
      entries := [(⟨"/", [".bnfmatchrc"]⟩,
        .file "\x7b\"engine\": \x7b\"max_depth\": 7\x7d\x7d".toUTF8.toList)] }
  environment := { maxDepth := some " 1_2 " }

def shallow : MatchRequest := ⟨⟨some "g.bn", []⟩, some "a", none, .bound 3, false⟩

theorem layered_depth_in_force : ∃ loaded s : Settings,
    Settings.load layered.runtime layered.disk layered.environment = .ok loaded ∧
      shallow.settings loaded = .ok s ∧ s.maxDepth = 3 ∧
      ∃ file own, Settings.Finds layered.runtime layered.disk {} none file ∧
        DepthInForce (Settings.depthValue? file) layered.environment.depth? (.bound 3) 3 ∧
        Settings.load layered.runtime layered.disk {} = .ok own ∧
        s = { own with maxDepth := 3 } := by
  have hload : Settings.load layered.runtime layered.disk layered.environment =
      .ok { maxDepth := 12, source := some "/.bnfmatchrc" } := by decide +kernel
  have hs : shallow.settings { maxDepth := 12, source := some "/.bnfmatchrc" } =
      .ok { maxDepth := 3, source := some "/.bnfmatchrc" } := rfl
  obtain ⟨hcounts, -⟩ := depth_in_force layered {} none shallow
  obtain ⟨-, hforce, -⟩ := hcounts _ _ hload hs
  exact ⟨_, _, hload, hs, rfl, hforce⟩

end MatchRequest

end CommandLine

end BackusNaur

import BackusNaur.Proofs.Loading.Files
import BackusNaur.Settings.Load

/-!
# How loading settings fails

Whatever is in a settings file, loading it ends with settings or with a failure. Three kinds of
documents let a fault escape: one that is no table, one that asks for an infinite depth, and one
that names the encoding by a value with too long a number in it.

`Settings.load_eq_unexplained_iff`: a fault escapes from loading settings exactly if the settings
file, or the path of it, is like this; the environment has no part in it.
-/

namespace BackusNaur

variable {rt : Runtime} {d : Disk} {root p : Path} {given : Option Path} {fault : Fault}
  {failure : Failure} {source : String} {value document : Value}
  {fields : List (CodePoints × Value)}

-- ---------------------------------------------------------------------------
-- Values
-- ---------------------------------------------------------------------------

theorem Value.toInteger_eq_infinite_iff :
    value.toInteger = .error .infinite ↔ ∃ negative, value = .float (.infinite negative) := by
  constructor
  · intro h
    cases value with
    | float x =>
      cases x with
      | infinite negative => exact ⟨negative, rfl⟩
      | finite => cases h
      | notANumber => cases h
    | text s =>
      obtain ⟨_, -, ⟨⟩⟩ := exceptMapError_eq_error.mp h
    | _ => cases h
  · rintro ⟨negative, rfl⟩
    rfl

namespace Settings

theorem depthOf_eq_ok_iff : depthOf source value = .ok depth ↔ value.toInteger = .ok depth := by
  unfold depthOf
  split <;> simp_all

theorem depthOf_eq_unexplained_iff : depthOf source value = .error (.unexplained fault) ↔
    fault = .infiniteDepth ∧ ∃ negative, value = .float (.infinite negative) := by
  rw [← Value.toInteger_eq_infinite_iff]
  unfold depthOf
  split
  · simp_all
  · simp_all [eq_comm]
  · simp_all [Settings.failure, Failure.ofDiagnostic]

theorem ofLoading_of_depthOf (h : depthOf source value = .error failure) : failure.OfLoading := by
  unfold depthOf at h
  split at h <;> cases h
  · exact .unexplained _
  · exact .settings rfl

theorem encodingOf_eq_error_iff : encodingOf value = .error failure ↔
    failure = .unexplained .longNumber ∧ value.isTruthy = true ∧ value.hasLongNumber = true := by
  unfold encodingOf
  cases value.isTruthy with
  | false => exact iff_of_false nofun (by simp)
  | true =>
    cases value.hasLongNumber with
    | false => exact iff_of_false nofun (by simp)
    | true => simp [eq_comm]

theorem checkDepth_eq_ok_iff : checkDepth depth source? = .ok u ↔ 1 ≤ depth := by
  unfold checkDepth
  split <;> simp_all

theorem withDepth_eq_ok_iff {s s' : Settings} :
    (s.withDepth (some depth)).mapError Failure.ofDiagnostic = .ok s' ↔
      1 ≤ depth ∧ s' = { s with maxDepth := depth } := by
  simp only [withDepth, exceptMapError_eq_ok, exceptBind_eq_ok, exceptPure_eq_ok,
    checkDepth_eq_ok_iff]
  simp [eq_comm]

theorem withDepth_eq_error {s : Settings} (h : depth < 1) :
    (s.withDepth (some depth)).mapError Failure.ofDiagnostic =
      .error (Settings.failure s.source (.depthNotPositive depth)) := by
  simp only [withDepth, checkDepth, if_pos h]
  rfl

theorem cause_of_checkDepth (h : checkDepth depth source? = .error diagnostic) :
    ∃ fault, diagnostic.cause = .settings fault := by
  unfold checkDepth at h
  split at h <;> cases h
  exact ⟨_, rfl⟩

-- ---------------------------------------------------------------------------
-- Documents
-- ---------------------------------------------------------------------------

theorem ofSection_eq (source : String) (fields : List (CodePoints × Value)) :
    ofSection source fields = do
      let depth ← (Value.find? "max_depth" fields).elim (.ok defaultMaxDepth) (depthOf source)
      (checkDepth depth (some source)).mapError .ofDiagnostic
      let encoding ← (Value.find? "encoding" fields).elim
        (.ok (.ofString "utf-8")) encodingOf
      return { maxDepth := depth, encoding, source := some source } := by
  unfold ofSection
  cases Value.find? "max_depth" fields <;> cases Value.find? "encoding" fields <;> rfl

inductive SectionEscapes (fields : List (CodePoints × Value)) : Fault → Prop
  | infiniteDepth {negative : Bool}
    (h : Value.find? "max_depth" fields = some (.float (.infinite negative))) :
    SectionEscapes fields .infiniteDepth
  /-- The encoding is looked at when the depth has been found right. -/
  | longNumber {value : Value}
    (hdepth : ∀ value, Value.find? "max_depth" fields = some value →
      ∃ depth, value.toInteger = .ok depth ∧ 1 ≤ depth)
    (hencoding : Value.find? "encoding" fields = some value) (htruthy : value.isTruthy = true)
    (hlong : value.hasLongNumber = true) : SectionEscapes fields .longNumber

theorem not_sectionEscapes_nil : ¬ SectionEscapes [] fault := by
  rintro (h | ⟨-, h, -, -⟩) <;> cases h

theorem ofSection_eq_unexplained_iff :
    ofSection source fields = .error (.unexplained fault) ↔ SectionEscapes fields fault := by
  simp only [ofSection_eq, exceptBind_eq_error, exceptMapError_eq_error, exceptMapError_eq_ok,
    exceptPure_ne_error, and_false, exists_false, or_false, optionElim_eq_error,
    depthOf_eq_unexplained_iff, encodingOf_eq_error_iff, checkDepth_eq_ok_iff]
  constructor
  · rintro (⟨_, h, rfl, _, rfl⟩ |
      ⟨depth, hdepth, ⟨_, -, ⟨⟩⟩ | ⟨_, hpos, value, hencoding, ⟨⟩, hsays⟩⟩)
    · exact .infiniteDepth h
    · refine .longNumber (fun value hfind => ⟨depth, ?_, hpos⟩) hencoding hsays.1 hsays.2
      rw [hfind] at hdepth
      exact depthOf_eq_ok_iff.mp hdepth
  · rintro (h | ⟨hdepth, hencoding, htruthy, hlong⟩)
    · exact .inl ⟨_, h, rfl, _, rfl⟩
    · refine .inr ?_
      cases hfind : Value.find? "max_depth" fields with
      | none => exact ⟨_, rfl, .inr ⟨(), by decide, _, hencoding, rfl, htruthy, hlong⟩⟩
      | some value =>
        obtain ⟨depth, hvalue, hpos⟩ := hdepth value hfind
        exact ⟨depth, depthOf_eq_ok_iff.mpr hvalue,
          .inr ⟨(), hpos, _, hencoding, rfl, htruthy, hlong⟩⟩

theorem ofLoading_of_ofSection (h : ofSection source fields = .error failure) :
    failure.OfLoading := by
  simp only [ofSection_eq, exceptBind_eq_error, exceptMapError_eq_error, exceptPure_ne_error,
    and_false, exists_false, or_false, optionElim_eq_error, encodingOf_eq_error_iff] at h
  rcases h with ⟨_, -, h⟩ | ⟨depth, -, ⟨_, hcheck, rfl⟩ | ⟨_, -, _, -, rfl, -⟩⟩
  · exact ofLoading_of_depthOf h
  · obtain ⟨_, h⟩ := cause_of_checkDepth hcheck
    exact .settings h
  · exact .unexplained _

inductive DocumentEscapes : Value → Fault → Prop
  | notTable {document : Value} (h : ∀ fields, document ≠ .table fields) :
    DocumentEscapes document (.settingsNotTable document.kind)
  | engine {fields engine : List (CodePoints × Value)} {fault : Fault}
    (h : Value.find? "engine" fields = some (.table engine))
    (hengine : SectionEscapes engine fault) : DocumentEscapes (.table fields) fault

theorem ofDocument_eq_unexplained_iff :
    ofDocument source document = .error (.unexplained fault) ↔ DocumentEscapes document fault := by
  have hnil : ofSection source [] ≠ .error (.unexplained fault) := fun h =>
    not_sectionEscapes_nil (ofSection_eq_unexplained_iff.mp h)
  constructor
  · intro h
    unfold ofDocument at h
    split at h
    · split at h
      · exact absurd h hnil
      · exact .engine ‹_› (ofSection_eq_unexplained_iff.mp h)
      · split at h
        · cases h
        · exact absurd h hnil
    · rename_i hnot
      cases h
      exact .notTable hnot
  · rintro (hnot | ⟨hengine, h⟩)
    · unfold ofDocument
      split
      · exact absurd rfl (hnot _)
      · rfl
    · rw [ofDocument, hengine]
      exact ofSection_eq_unexplained_iff.mpr h

theorem ofLoading_of_ofDocument (h : ofDocument source document = .error failure) :
    failure.OfLoading := by
  unfold ofDocument at h
  repeat' split at h
  · exact ofLoading_of_ofSection h
  · exact ofLoading_of_ofSection h
  · cases h
    exact .settings rfl
  · exact ofLoading_of_ofSection h
  · cases h
    exact .unexplained _

-- ---------------------------------------------------------------------------
-- Settings files
-- ---------------------------------------------------------------------------

def candidates (root : Path) : Option Path → List Path
  | some p => [p]
  | none => fileNames.map root.below

theorem locate_eq (d : Disk) (root : Path) (given : Option Path) :
    locate d root given = (candidates root given).findM? (isThere d) := by
  cases given <;> rfl

theorem isThere_eq_error_iff : isThere d p = .error failure ↔
    d.find p = .error .nameTooLong ∧ failure = .unexplained (.pathTooLong p.text) := by
  rw [isThere, exceptMapError_eq_error, Disk.holds]
  cases d.find p with
  | ok => simp
  | error fault => cases fault <;> simp [eq_comm]

theorem locate_eq_error_iff : locate d root given = .error failure ↔
    ∃ before p after, candidates root given = before ++ p :: after ∧
      (∀ q ∈ before, d.holds q = .ok false) ∧ d.find p = .error .nameTooLong ∧
      failure = .unexplained (.pathTooLong p.text) := by
  simp only [locate_eq, findM?_eq_error_iff, isThere_eq_error_iff]
  simp only [isThere, exceptMapError_eq_ok]

theorem exists_of_readDocument_eq_error (h : readDocument rt d p = .error failure) :
    ∃ fault, failure = Settings.failure (some p.text) fault := by
  simp only [readDocument, exceptBind_eq_error, exceptMapError_eq_error] at h
  rcases h with ⟨_, -, rfl⟩ | ⟨_, -, ⟨_, -, rfl⟩ | ⟨_, -, h⟩⟩
  · exact ⟨_, rfl⟩
  · exact ⟨_, rfl⟩
  · split at h <;> cases h
    exact ⟨_, rfl⟩

theorem ofFile_eq_unexplained_iff {found : Option Path} :
    ofFile rt d found = .error (.unexplained fault) ↔ ∃ p document, found = some p ∧
      readDocument rt d p = .ok document ∧ DocumentEscapes document fault := by
  cases found with
  | none => exact iff_of_false nofun (by simp)
  | some p =>
    simp only [ofFile, exceptBind_eq_error, ofDocument_eq_unexplained_iff]
    constructor
    · rintro (h | ⟨document, hread, h⟩)
      · obtain ⟨_, ⟨⟩⟩ := exists_of_readDocument_eq_error h
      · exact ⟨p, document, rfl, hread, h⟩
    · rintro ⟨_, document, ⟨⟩, hread, h⟩
      exact .inr ⟨document, hread, h⟩

theorem ofLoading_of_ofFile {found : Option Path} (h : ofFile rt d found = .error failure) :
    failure.OfLoading := by
  cases found with
  | none => cases h
  | some p =>
    rcases exceptBind_eq_error.mp h with h | ⟨document, -, h⟩
    · obtain ⟨_, rfl⟩ := exists_of_readDocument_eq_error h
      exact .settings rfl
    · exact ofLoading_of_ofDocument h

-- ---------------------------------------------------------------------------
-- The settings of a run
-- ---------------------------------------------------------------------------

theorem exists_of_withEnvironment_eq_error {s : Settings} {env : Environment}
    (h : s.withEnvironment env = .error failure) :
    ∃ diagnostic fault, failure = .ofDiagnostic diagnostic ∧
      diagnostic.cause = .settings fault := by
  unfold withEnvironment at h
  split at h
  · cases h
  · split at h
    · obtain ⟨diagnostic, hdepth, rfl⟩ := exceptMapError_eq_error.mp h
      obtain hcheck | ⟨_, -, ⟨⟩⟩ := exceptBind_eq_error.mp hdepth
      obtain ⟨fault, hcause⟩ := cause_of_checkDepth hcheck
      exact ⟨diagnostic, fault, rfl, hcause⟩
    · cases h
      exact ⟨_, _, rfl, rfl⟩

/-- The fault that loading settings lets escape. -/
inductive Escapes (rt : Runtime) (d : Disk) (root : Path) (given : Option Path) : Fault → Prop
  | nul (h : '\x00' ∈ root.text.toList) : Escapes rt d root given .nulInPath
  /-- It cannot be told whether there is a settings file. -/
  | pathTooLong {before after : List Path} {p : Path} (hroot : '\x00' ∉ root.text.toList)
    (hplaces : candidates (d.absolute root) given = before ++ p :: after)
    (hbefore : ∀ q ∈ before, d.holds q = .ok false) (h : d.find p = .error .nameTooLong) :
    Escapes rt d root given (.pathTooLong p.text)
  | document {p : Path} {document : Value} {fault : Fault}
    (hroot : '\x00' ∉ root.text.toList)
    (hplace : locate d (d.absolute root) given = .ok (some p))
    (hread : readDocument rt d p = .ok document) (h : DocumentEscapes document fault) :
    Escapes rt d root given fault

variable {env : Environment}

theorem load_eq_error (h : load rt d env root given = .error failure) :
    '\x00' ∈ root.text.toList ∧ failure = .unexplained .nulInPath ∨
    '\x00' ∉ root.text.toList ∧
      (locate d (d.absolute root) given = .error failure ∨
        (∃ p : Path, failure = Settings.failure (some p.text) (.notFound p.text)) ∨
        ∃ found, locate d (d.absolute root) given = .ok found ∧
          (ofFile rt d found = .error failure ∨
            ∃ s : Settings, s.withEnvironment env = .error failure)) := by
  unfold load at h
  split at h
  · rename_i hroot
    cases h
    exact .inl ⟨hroot, rfl⟩
  · rename_i hroot
    refine .inr ⟨hroot, ?_⟩
    obtain h | ⟨found, hfound, h⟩ := exceptBind_eq_error.mp h
    · exact .inl h
    · split at h
      · cases h
        exact .inr (.inl ⟨_, rfl⟩)
      · obtain h | ⟨s, -, h⟩ := exceptBind_eq_error.mp h
        · exact .inr (.inr ⟨found, hfound, .inl h⟩)
        · exact .inr (.inr ⟨found, hfound, .inr ⟨s, h⟩⟩)

theorem Escapes.load_eq (h : Escapes rt d root given fault) :
    load rt d env root given = .error (.unexplained fault) := by
  unfold load
  cases h with
  | nul h =>
    rw [if_pos h]
    rfl
  | pathTooLong hroot hplaces hbefore h =>
    have hlocate := locate_eq_error_iff.mpr ⟨_, _, _, hplaces, hbefore, h, rfl⟩
    rw [if_neg hroot]
    exact exceptBind_eq_error.mpr (.inl hlocate)
  | @document p document _ hroot hplace hread h =>
    have hfile := ofFile_eq_unexplained_iff.mpr ⟨p, document, rfl, hread, h⟩
    rw [if_neg hroot]
    refine exceptBind_eq_error.mpr (.inr ⟨some p, hplace, ?_⟩)
    cases given <;> exact exceptBind_eq_error.mpr (.inl hfile)

theorem load_eq_unexplained_iff :
    load rt d env root given = .error (.unexplained fault) ↔ Escapes rt d root given fault := by
  refine ⟨fun h => ?_, Escapes.load_eq⟩
  rcases load_eq_error h with ⟨hroot, ⟨⟩⟩ | ⟨hroot, h | ⟨_, ⟨⟩⟩ | ⟨found, hfound, h | ⟨s, h⟩⟩⟩
  · exact .nul hroot
  · obtain ⟨before, p, after, hplaces, hbefore, hlong, ⟨⟩⟩ := locate_eq_error_iff.mp h
    exact .pathTooLong hroot hplaces hbefore hlong
  · obtain ⟨p, document, rfl, hread, h⟩ := ofFile_eq_unexplained_iff.mp h
    exact .document hroot hfound hread h
  · obtain ⟨_, _, ⟨⟩, -⟩ := exists_of_withEnvironment_eq_error h

theorem ofLoading_of_load (h : load rt d env root given = .error failure) : failure.OfLoading := by
  rcases load_eq_error h with ⟨-, rfl⟩ | ⟨-, h | ⟨_, rfl⟩ | ⟨found, -, h | ⟨s, h⟩⟩⟩
  · exact .unexplained _
  · obtain ⟨_, _, _, -, -, -, rfl⟩ := locate_eq_error_iff.mp h
    exact .unexplained _
  · exact .settings rfl
  · exact ofLoading_of_ofFile h
  · obtain ⟨_, _, rfl, hcause⟩ := exists_of_withEnvironment_eq_error h
    exact .settings hcause

end Settings

end BackusNaur

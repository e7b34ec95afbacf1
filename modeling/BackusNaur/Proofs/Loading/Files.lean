import BackusNaur.Files.Reading
import BackusNaur.Proofs.Outcome

/-!
# How reading files fails

Reading a file ends with a text or with a failure. Most failures are diagnostics; the others escape:
an encoding that is no name or that the registry does not know, a path with the character NUL in it,
and a text that is not in its encoding as a whole, such as UTF-16 without a mark in front.

`Disk.readSources_eq_unexplained_iff`: reading a grammar and its dictionaries lets a fault escape
exactly if the first of the files that cannot be read has it.
-/

namespace BackusNaur

/-- A failure of loading: a diagnostic of settings, of a file, of a definition or of undefined
symbols, or a fault without a diagnostic. -/
inductive Failure.OfLoading : Failure → Prop
  | settings {d : Diagnostic} {fault : SettingsFault} (h : d.cause = .settings fault) :
    OfLoading (.ofDiagnostic d)
  | unreadableFile {d : Diagnostic} {name : String} (h : d.cause = .unreadableFile name) :
    OfLoading (.ofDiagnostic d)
  | definition {d : Diagnostic} {fault : DefinitionFault} (h : d.cause = .definition fault) :
    OfLoading (.ofDiagnostic d)
  | undefinedSymbols {d : Diagnostic} {names : List String}
    (h : d.cause = .undefinedSymbols names) : OfLoading (.ofDiagnostic d)
  | unexplained (fault : Fault) : OfLoading (.unexplained fault)

theorem Failure.OfLoading.exists_eq {failure : Failure} (h : failure.OfLoading) :
    (∃ fault, failure = .unexplained fault) ∨ ∃ d, failure = .ofDiagnostic d := by
  cases h with
  | unexplained fault => exact .inl ⟨fault, rfl⟩
  | _ => exact .inr ⟨_, rfl⟩

namespace Disk

variable {d : Disk} {codecs : Codecs} {p : Path} {encoding : CodePoints} {fault : Fault}
  {failure : Failure}

theorem follow_ne_nul {here : Path} {parts : List String} : d.follow here parts ≠ .error .nul := by
  induction parts generalizing here with
  | nil => nofun
  | cons part rest ih =>
    intro h
    unfold follow at h
    repeat' split at h
    all_goals first | cases h | exact ih h

theorem find_eq_nul_iff : d.find p = .error .nul ↔ '\x00' ∈ p.text.toList := by
  unfold find
  split
  · simp_all
  · rename_i hnul
    refine iff_of_false (fun h => ?_) hnul
    split at h
    · cases h
    · exact follow_ne_nul h

theorem read_eq_nul_iff : d.read p = .error .nul ↔ '\x00' ∈ p.text.toList := by
  have hfind : d.read p = .error .nul ↔ d.find p = .error .nul := by
    rw [read, exceptBind_eq_error]
    refine or_iff_left ?_
    rintro ⟨entry, -, h⟩
    cases entry <;> cases h
  exact hfind.trans find_eq_nul_iff

/-- The fault that reading a file in an encoding lets escape. -/
inductive Escapes (d : Disk) (codecs : Codecs) (encoding : CodePoints) (p : Path) : Fault → Prop
  /-- The encoding is no name at all. It does not matter what the file is. -/
  | noName {fault : NameFault} (h : Encoding.nameOf encoding = .error fault) :
    Escapes d codecs encoding p (.encodingName fault)
  | nul {name : String} (hname : Encoding.nameOf encoding = .ok name)
    (h : '\x00' ∈ p.text.toList) : Escapes d codecs encoding p .nulInPath
  /-- There is no encoding of this name, which shows when the file has been opened. -/
  | noEncoding {name : String} {bytes : List UInt8} {fault : LookupFault}
    (hname : Encoding.nameOf encoding = .ok name) (hopen : d.read p = .ok bytes)
    (h : codecs name = .error fault) : Escapes d codecs encoding p (.noEncoding fault)
  | unsuitable {name reason : String} {bytes : List UInt8}
    {decode : List UInt8 → Except DecodeFault (List Char)}
    (hname : Encoding.nameOf encoding = .ok name) (hopen : d.read p = .ok bytes)
    (hcodec : codecs name = .ok decode) (h : decode bytes = .error (.unsuitable reason)) :
    Escapes d codecs encoding p (.unsuitable reason)

theorem readText_eq_unexplained_iff :
    d.readText codecs p encoding = .error (.unexplained fault) ↔
      d.Escapes codecs encoding p fault := by
  simp only [readText, exceptBind_eq_error, exceptMapError_eq_error, exceptMapError_eq_ok]
  constructor
  · rintro (⟨_, h, ⟨⟩⟩ | ⟨name, hname, ⟨fault, h, hopen⟩ | ⟨bytes, hopen, ⟨_, h, ⟨⟩⟩ |
      ⟨decode, hcodec, h⟩⟩⟩)
    · exact .noName h
    · cases fault <;> cases hopen
      exact .nul hname (read_eq_nul_iff.mp h)
    · exact .noEncoding hname hopen h
    · split at h <;> cases h
      exact .unsuitable hname hopen hcodec ‹_›
  · rintro (h | ⟨hname, h⟩ | ⟨hname, hopen, h⟩ | ⟨hname, hopen, hcodec, h⟩)
    · exact .inl ⟨_, h, rfl⟩
    · exact .inr ⟨_, hname, .inl ⟨_, read_eq_nul_iff.mpr h, rfl⟩⟩
    · exact .inr ⟨_, hname, .inr ⟨_, hopen, .inl ⟨_, h, rfl⟩⟩⟩
    · refine .inr ⟨_, hname, .inr ⟨_, hopen, .inr ⟨_, hcodec, ?_⟩⟩⟩
      rw [h]

theorem ofLoading_of_readText (h : d.readText codecs p encoding = .error failure) :
    failure.OfLoading := by
  simp only [readText, exceptBind_eq_error, exceptMapError_eq_error] at h
  rcases h with ⟨_, -, rfl⟩ | ⟨_, -, ⟨fault, -, rfl⟩ | ⟨bytes, -, ⟨_, -, rfl⟩ | ⟨decode, -, h⟩⟩⟩
  · exact .unexplained _
  · cases fault with
    | nul => exact .unexplained _
    | _ => exact .unreadableFile rfl
  · exact .unexplained _
  · split at h <;> cases h
    · exact .unexplained _
    · exact .unreadableFile rfl

theorem readSource_eq_error_iff {path : String} :
    d.readSource codecs encoding path = .error failure ↔
      d.readText codecs (Path.ofText path) encoding = .error failure := by
  rw [readSource, exceptBind_eq_error]
  exact or_iff_left nofun

theorem readSources_eq_error_iff {path : String} {dictionaries : List String} :
    d.readSources codecs encoding path dictionaries = .error failure ↔
      ∃ before next after, path :: dictionaries = before ++ next :: after ∧
        (∀ earlier ∈ before, ∃ source, d.readSource codecs encoding earlier = .ok source) ∧
        d.readText codecs (Path.ofText next) encoding = .error failure := by
  simp only [← readSource_eq_error_iff, ← mapM_eq_error_iff]
  simp only [readSources, List.mapM_cons, exceptBind_eq_error, exceptPure_ne_error, and_false,
    exists_false, or_false]

theorem readSources_eq_unexplained_iff {path : String} {dictionaries : List String} :
    d.readSources codecs encoding path dictionaries = .error (.unexplained fault) ↔
      ∃ before next after, path :: dictionaries = before ++ next :: after ∧
        (∀ earlier ∈ before, ∃ source, d.readSource codecs encoding earlier = .ok source) ∧
        d.Escapes codecs encoding (Path.ofText next) fault := by
  simp only [readSources_eq_error_iff, readText_eq_unexplained_iff]

theorem ofLoading_of_readSources {path : String} {dictionaries : List String}
    (h : d.readSources codecs encoding path dictionaries = .error failure) : failure.OfLoading := by
  obtain ⟨_, next, _, -, -, h⟩ := readSources_eq_error_iff.mp h
  exact ofLoading_of_readText h

end Disk

end BackusNaur

import BackusNaur.Proofs.Reading.Locating

/-!
# Lines of combined sources

Every source keeps its lines in the combined text: they stand there in a row, from an offset that
the sources before it give, and the source map takes each of them back to the source. Between two
such rows there is at most the end of a line, which can make an empty line. Lines and sources are
counted from zero here; the map counts lines from one.
-/

namespace BackusNaur

theorem eq_of_getElem?_singleton {α : Type} {a b : α} {i : Nat} (h : [a][i]? = some b) :
    i = 0 ∧ b = a := by
  cases i with
  | zero => exact ⟨rfl, (Option.some.inj h).symm⟩
  | succ i => cases h

namespace Sources

variable {grammar last source : Source} {dictionaries : List Source} {s : Sources} {i j k n : Nat}
  {line : List Char}

def offset (s : Sources) : Nat → Nat
  | 0 => 0
  | i + 1 => Text.lineCount (text ⟨s.grammar, s.dictionaries.take i⟩ ++ "\n")

/-- Source `i` has line `n` of the combined text. -/
def Covers (s : Sources) (i n : Nat) : Prop :=
  ∃ source, s.all[i]? = some source ∧
    s.offset i ≤ n ∧ n < s.offset i + Text.lineCount source.text

-- ---------------------------------------------------------------------------
-- One more source
-- ---------------------------------------------------------------------------

theorem offset_concat (last : Source) (h : i ≤ dictionaries.length) :
    offset ⟨grammar, dictionaries ++ [last]⟩ i = offset ⟨grammar, dictionaries⟩ i := by
  cases i with
  | zero => rfl
  | succ i => rw [offset, offset, List.take_append_of_le_length (Nat.le_of_succ_le h)]

theorem offset_last : offset ⟨grammar, dictionaries ++ [last]⟩ (dictionaries.length + 1) =
    Text.lineCount (text ⟨grammar, dictionaries⟩ ++ "\n") := by
  rw [offset, List.take_left]

theorem getElem?_all_concat (h : (all ⟨grammar, dictionaries ++ [last]⟩)[i]? = some source) :
    ((all ⟨grammar, dictionaries⟩)[i]? = some source ∧
      offset ⟨grammar, dictionaries ++ [last]⟩ i = offset ⟨grammar, dictionaries⟩ i) ∨
    (i = dictionaries.length + 1 ∧ source = last ∧
      offset ⟨grammar, dictionaries ++ [last]⟩ i =
        Text.lineCount (text ⟨grammar, dictionaries⟩ ++ "\n")) := by
  rw [all, ← List.cons_append, List.getElem?_append] at h
  split at h
  · rename_i hlt
    exact .inl ⟨h, offset_concat last (Nat.lt_succ_iff.mp hlt)⟩
  · obtain ⟨hi, rfl⟩ := eq_of_getElem?_singleton h
    have hi : i = dictionaries.length + 1 := by
      rw [List.length_cons] at *
      omega
    exact .inr ⟨hi, rfl, hi ▸ offset_last⟩

theorem lines_text_concat : Text.lines (text ⟨grammar, dictionaries ++ [last]⟩).toList =
    Text.lines (text ⟨grammar, dictionaries⟩ ++ "\n").toList ++ Text.lines last.text.toList := by
  rw [text_concat, Line.lines_combine]

theorem lineCount_text_concat : Text.lineCount (text ⟨grammar, dictionaries ++ [last]⟩) =
    Text.lineCount (text ⟨grammar, dictionaries⟩ ++ "\n") + Text.lineCount last.text := by
  rw [Text.lineCount, lines_text_concat, List.length_append]
  rfl

theorem covers_concat_iff : Covers ⟨grammar, dictionaries ++ [last]⟩ i n ↔
    Covers ⟨grammar, dictionaries⟩ i n ∨
    (i = dictionaries.length + 1 ∧
      Text.lineCount (text ⟨grammar, dictionaries⟩ ++ "\n") ≤ n ∧
      n < Text.lineCount (text ⟨grammar, dictionaries ++ [last]⟩)) := by
  rw [lineCount_text_concat]
  constructor
  · rintro ⟨source, hsource, hn⟩
    rcases getElem?_all_concat hsource with ⟨hinit, hoffset⟩ | ⟨hi, rfl, hoffset⟩
    · exact .inl ⟨source, hinit, hoffset ▸ hn⟩
    · exact .inr ⟨hi, hoffset ▸ hn⟩
  · rintro (⟨source, hsource, hn⟩ | ⟨rfl, hn⟩)
    · obtain ⟨hlt, -⟩ := List.getElem?_eq_some_iff.mp hsource
      refine ⟨source, ?_, ?_⟩
      · exact (List.getElem?_append_left hlt).trans hsource
      · rwa [offset_concat last (Nat.lt_succ_iff.mp hlt)]
    · refine ⟨last, ?_, ?_⟩
      · simp [all]
      · rwa [offset_last]

-- ---------------------------------------------------------------------------
-- Lines and their sources
-- ---------------------------------------------------------------------------

theorem covers_of_getElem? (hsource : s.all[i]? = some source)
    (hk : k < Text.lineCount source.text) : s.Covers i (s.offset i + k) :=
  ⟨source, hsource, Nat.le_add_right .., Nat.add_lt_add_left hk _⟩

theorem Covers.lt_lineCount (h : s.Covers i n) : n < Text.lineCount s.text := by
  obtain ⟨grammar, dictionaries⟩ := s
  induction dictionaries using List.reverseRecOn with
  | nil =>
    obtain ⟨source, hsource, -, hn⟩ := h
    obtain ⟨rfl, rfl⟩ := eq_of_getElem?_singleton hsource
    rwa [offset, Nat.zero_add] at hn
  | append_singleton dictionaries last ih =>
    rcases covers_concat_iff.mp h with hinit | ⟨-, -, hn⟩
    · have hlt := ih hinit
      have hle := Text.lineCount_le_newline (text ⟨grammar, dictionaries⟩)
      rw [lineCount_text_concat]
      omega
    · exact hn

theorem getElem?_lines_text (hsource : s.all[i]? = some source)
    (hk : k < Text.lineCount source.text) :
    (Text.lines s.text.toList)[s.offset i + k]? = (Text.lines source.text.toList)[k]? := by
  obtain ⟨grammar, dictionaries⟩ := s
  induction dictionaries using List.reverseRecOn with
  | nil =>
    obtain ⟨rfl, rfl⟩ := eq_of_getElem?_singleton hsource
    rw [offset, Nat.zero_add]
    rfl
  | append_singleton dictionaries last ih =>
    rcases getElem?_all_concat hsource with ⟨hinit, hoffset⟩ | ⟨-, rfl, hoffset⟩
    · have hlt := (covers_of_getElem? hinit hk).lt_lineCount
      rw [hoffset, text_concat, Text.getElem?_lines_combine _ hlt, ih hinit]
    · rw [hoffset, lines_text_concat, Text.lineCount,
        List.getElem?_append_right (Nat.le_add_right ..), Nat.add_sub_cancel_left]

theorem locate?_offset (hsource : s.all[i]? = some source) (hk : k < Text.lineCount source.text) :
    (SourceMap.ofSources s.all).locate? ((s.offset i + k + 1 : Nat) : Int) =
      some (source.path, ((k + 1 : Nat) : Int)) := by
  obtain ⟨grammar, dictionaries⟩ := s
  induction dictionaries using List.reverseRecOn with
  | nil =>
    obtain ⟨rfl, rfl⟩ := eq_of_getElem?_singleton hsource
    have hlt : ((0 : Nat) : Int) < ((0 + k + 1 : Nat) : Int) := by omega
    refine (@SourceMap.locate?_concat_of_lt [] 0 _ _ hlt).trans ?_
    exact congrArg (fun line => some (source.path, line)) (by omega)
  | append_singleton dictionaries last ih =>
    rw [all, SourceMap.ofSources_concat]
    rcases getElem?_all_concat hsource with ⟨hinit, hoffset⟩ | ⟨-, rfl, hoffset⟩
    · have hlt := (covers_of_getElem? hinit hk).lt_lineCount
      have hle := Text.lineCount_le_newline (text ⟨grammar, dictionaries⟩)
      rw [hoffset, SourceMap.locate?_concat_of_le (by simp [SourceMap.ofSources])]
      · exact ih hinit
      · exact_mod_cast Nat.succ_le_of_lt (hlt.trans_le hle)
    · have htext : combine grammar.text (dictionaries.map Source.text) =
          text ⟨grammar, dictionaries⟩ := rfl
      rw [hoffset, htext, SourceMap.locate?_concat_of_lt (by omega)]
      exact congrArg (fun line => some (source.path, line)) (by omega)

theorem Covers.unique (hi : s.Covers i n) (hj : s.Covers j n) : i = j := by
  obtain ⟨grammar, dictionaries⟩ := s
  induction dictionaries using List.reverseRecOn with
  | nil =>
    obtain ⟨_, hi, -⟩ := hi
    obtain ⟨_, hj, -⟩ := hj
    exact (eq_of_getElem?_singleton hi).1.trans (eq_of_getElem?_singleton hj).1.symm
  | append_singleton dictionaries last ih =>
    have hle := Text.lineCount_le_newline (text ⟨grammar, dictionaries⟩)
    rcases covers_concat_iff.mp hi with hi | ⟨rfl, hn, -⟩ <;>
      rcases covers_concat_iff.mp hj with hj | ⟨rfl, hn', -⟩
    · exact ih hi hj
    · have hlt := hi.lt_lineCount
      omega
    · have hlt := hj.lt_lineCount
      omega
    · rfl

theorem eq_nil_of_not_covers (hline : (Text.lines s.text.toList)[n]? = some line)
    (h : ∀ i, ¬ s.Covers i n) : line = [] := by
  obtain ⟨grammar, dictionaries⟩ := s
  induction dictionaries using List.reverseRecOn with
  | nil =>
    obtain ⟨hn, -⟩ := List.getElem?_eq_some_iff.mp hline
    exact absurd ⟨grammar, rfl, Nat.zero_le _, (Nat.zero_add _).symm ▸ hn⟩ (h 0)
  | append_singleton dictionaries last ih =>
    have hinit : ∀ i, ¬ Covers ⟨grammar, dictionaries⟩ i n :=
      fun i hi => h i (covers_concat_iff.mpr (.inl hi))
    obtain ⟨hn, -⟩ := List.getElem?_eq_some_iff.mp hline
    -- The line is not one of the last source, so it comes before them.
    have hlt : n < Text.lineCount (text ⟨grammar, dictionaries⟩ ++ "\n") := by
      by_contra hnot
      exact h _ (covers_concat_iff.mpr (.inr ⟨rfl, Nat.le_of_not_lt hnot, hn⟩))
    rw [lines_text_concat, List.getElem?_append_left hlt] at hline
    rcases Text.lines_newline (text ⟨grammar, dictionaries⟩) with hsame | hmore
    · rw [hsame] at hline
      exact ih hline hinit
    · rw [hmore, List.getElem?_append] at hline
      split at hline
      · exact ih hline hinit
      · exact (eq_of_getElem?_singleton hline).2

/-- Line `k` of source `i` is line `offset i + k` of the combined text, and the map takes it back
to where it was. Each line of the combined text comes from one source at most, and one that comes
from none is empty. -/
theorem lines_text (s : Sources) :
    (∀ i source k line, s.all[i]? = some source →
      (Text.lines source.text.toList)[k]? = some line →
      (Text.lines s.text.toList)[s.offset i + k]? = some line ∧
      (SourceMap.ofSources s.all).locate? ((s.offset i + k + 1 : Nat) : Int) =
        some (source.path, ((k + 1 : Nat) : Int))) ∧
    (∀ i j n, s.Covers i n → s.Covers j n → i = j) ∧
    (∀ n line, (Text.lines s.text.toList)[n]? = some line →
      (∀ i, ¬ s.Covers i n) → line = []) := by
  refine ⟨fun i source k line hsource hline => ?_, fun _ _ _ => Covers.unique,
    fun _ _ => eq_nil_of_not_covers⟩
  obtain ⟨hk, -⟩ := List.getElem?_eq_some_iff.mp hline
  exact ⟨(getElem?_lines_text hsource hk).trans hline, locate?_offset hsource hk⟩

def scattered : Sources :=
  ⟨⟨"main", "x\r"⟩, [⟨"blank", ""⟩, ⟨"names", "y\n"⟩, ⟨"more", "z"⟩]⟩

theorem not_scattered_covers (i : Nat) : ¬ scattered.Covers i 3 := by
  rintro ⟨source, hsource, hlow, hhigh⟩
  match i, hsource with
  | 0, rfl | 1, rfl | 2, rfl => exact absurd hhigh (by decide)
  | 3, rfl => exact absurd hlow (by decide)

theorem lines_scattered :
    Text.lines scattered.text.toList = [['x'], [], ['y'], [], ['z']] ∧
    (SourceMap.ofSources scattered.all).locate? 5 = some ("more", 1) ∧
    (∀ i, scattered.Covers i 4 → i = 3) ∧
    ∀ line, (Text.lines scattered.text.toList)[3]? = some line → line = [] := by
  obtain ⟨hlines, hunique, hempty⟩ := lines_text scattered
  have hplace := (hlines 3 ⟨"more", "z"⟩ 0 ['z'] rfl (by decide)).2
  have hcovers : scattered.Covers 3 4 := ⟨⟨"more", "z"⟩, rfl, by decide, by decide⟩
  exact ⟨by decide, hplace, fun i hi => hunique i 3 4 hi hcovers,
    fun line hline => hempty 3 line hline not_scattered_covers⟩

end Sources

end BackusNaur

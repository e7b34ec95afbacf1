import BackusNaur.Document.Json.Printer
import BackusNaur.Proofs.Outcome

/-!
# Strings and integers in JSON

What is written of a string or of an integer is read back as it was. Every character of a string is
written as code units that are this character whatever follows them: half a surrogate pair is never
written by itself. An integer ends where its digits end.

`Json.string?_renderString`, `Json.scalar?_renderValue_integer`.
-/

namespace BackusNaur

-- ---------------------------------------------------------------------------
-- Hexadecimal numbers
-- ---------------------------------------------------------------------------

namespace Text

theorem hexValue?_digitChar : ∀ n < 16, hexValue? n.digitChar = some n := by decide

theorem hexNumber?_concat (cs : List Char) (c : Char) : hexNumber? (cs ++ [c]) =
    (hexNumber? cs).bind fun n => (hexValue? c).map (16 * n + ·) := by
  simp only [hexNumber?, List.mapM_append]
  cases h : cs.mapM hexValue? <;> cases h' : hexValue? c <;> simp [h']

theorem hexNumber?_zero_cons (cs : List Char) : hexNumber? ('0' :: cs) = hexNumber? cs := by
  have hzero : hexValue? '0' = some 0 := by decide
  simp only [hexNumber?, List.mapM_cons, hzero]
  cases cs.mapM hexValue? <;> simp

theorem hexNumber?_toDigits (n : Nat) : hexNumber? (Nat.toDigits 16 n) = some n := by
  induction n using Nat.strongRecOn with
  | ind n ih =>
    rcases Nat.lt_or_ge n 16 with hn | hn
    · rw [Nat.toDigits_of_lt_base hn, ← List.nil_append [n.digitChar], hexNumber?_concat,
        hexValue?_digitChar n hn]
      simp [hexNumber?]
    · rw [Nat.toDigits_of_base_le (by decide) hn, hexNumber?_concat, ih (n / 16) (by omega),
        hexValue?_digitChar (n % 16) (by omega)]
      simp
      omega

theorem hexNumber?_hex (width n : Nat) : hexNumber? (hex width n) = some n := by
  have hzeros (k : Nat) (cs : List Char) :
      hexNumber? (List.replicate k '0' ++ cs) = hexNumber? cs := by
    induction k with
    | zero => rfl
    | succ k ih => rw [List.replicate_succ, List.cons_append, hexNumber?_zero_cons, ih]
  rw [hex, hzeros, hexNumber?_toDigits]

theorem length_hex_four {n : Nat} (h : n < 0x10000) : (hex 4 n).length = 4 := by
  have hdigits : (Nat.toDigits 16 n).length ≤ 4 :=
    (Nat.length_toDigits_le_iff (by decide) (by decide)).mpr h
  simp only [hex, List.length_append, List.length_replicate]
  omega

end Text

namespace Json

-- ---------------------------------------------------------------------------
-- Strings
-- ---------------------------------------------------------------------------

variable {n : Nat} {rest : List Char}

theorem units?_unitEscape (h : n < 0x10000) (rest : List Char) :
    units? (unitEscape n ++ rest) =
      (units? rest).map fun (units, rest) => (n :: units, rest) := by
  have hlength : (Text.hex 4 n).length = 4 := Text.length_hex_four h
  match hhex : Text.hex 4 n, hlength with
  | [a, b, c, d], _ =>
    have hnumber : Text.hexNumber? [a, b, c, d] = some n := hhex ▸ Text.hexNumber?_hex 4 n
    simp only [unitEscape, hhex, List.cons_append, List.nil_append]
    rw [units?, hnumber]
    cases units? rest <;> rfl

/-- These code units are one code point, whatever follows them. -/
def Spells (units : List Nat) (n : Nat) : Prop :=
  ∀ more, joinPairs (units ++ more) = n :: joinPairs more

theorem spells_singleton (h : ¬ (0xd800 ≤ n ∧ n < 0xdc00)) : Spells [n] n := by
  intro more
  cases more with
  | nil => rfl
  | cons low more =>
    rw [List.singleton_append, joinPairs, if_neg]
    rintro ⟨hlow, hhigh, -⟩
    exact h ⟨hlow, hhigh⟩

theorem spells_pair (high low : Nat) (hhigh : 0xd800 ≤ high ∧ high < 0xdc00)
    (hlow : 0xdc00 ≤ low ∧ low < 0xe000)
    (h : n = 0x10000 + (high - 0xd800) * 0x400 + (low - 0xdc00)) : Spells [high, low] n := by
  intro more
  rw [List.cons_append, List.singleton_append, joinPairs, if_pos ⟨hhigh.1, hhigh.2, hlow⟩, h]

theorem units?_quote (rest : List Char) : units? ('"' :: rest) = some ([], rest) := by
  rw [units?]

theorem units?_escaped {mark c : Char} (h : escaped? mark = some c) (rest : List Char) :
    units? ('\\' :: mark :: rest) =
      (units? rest).map fun (units, rest) => (c.toNat :: units, rest) := by
  have hmark : mark ≠ 'u' := by
    rintro rfl
    cases h
  rw [units?, h]
  · cases units? rest <;> rfl
  · simp [hmark]

theorem units?_plain {c : Char} (hquote : c ≠ '"') (hslash : c ≠ '\\')
    (hcontrol : ¬ c.toNat < 0x20) (rest : List Char) :
    units? (c :: rest) = (units? rest).map fun (units, rest) => (c.toNat :: units, rest) := by
  rw [units?, if_neg hcontrol]
  · cases units? rest <;> rfl
  · simp [hquote]
  · simp [hslash]
  · simp [hslash]

theorem renderChar_cases (ascii : Bool) (c : Char) :
    (∃ mark, renderChar ascii c = ['\\', mark] ∧ escaped? mark = some c) ∨
      renderChar ascii c = charEscape c ∨
      renderChar ascii c = [c] ∧ c ≠ '"' ∧ c ≠ '\\' ∧ ¬ c.toNat < 0x20 := by
  unfold renderChar
  split
  case h_8 hquote hslash _ _ _ _ _ =>
    split
    · exact .inr (.inl rfl)
    · rename_i hplain
      refine .inr (.inr ⟨rfl, hquote, hslash, ?_⟩)
      simp_all
  all_goals exact .inl ⟨_, rfl, rfl⟩

theorem exists_units_renderChar (ascii : Bool) (c : Char) :
    ∃ units, Spells units c.toNat ∧ ∀ rest, units? (renderChar ascii c ++ rest) =
      (units? rest).map fun (more, rest) => (units ++ more, rest) := by
  have valid : c.toNat < 0xd800 ∨ 0xdfff < c.toNat ∧ c.toNat < 0x110000 := c.valid
  have hself : Spells [c.toNat] c.toNat := spells_singleton (by omega)
  rcases renderChar_cases ascii c with ⟨mark, hrender, hmark⟩ | hrender |
    ⟨hrender, hquote, hslash, hcontrol⟩
  · exact ⟨_, hself, fun rest => hrender ▸ units?_escaped hmark rest⟩
  · by_cases hsmall : c.toNat < 0x10000
    · refine ⟨_, hself, fun rest => ?_⟩
      rw [hrender, charEscape, if_pos hsmall, units?_unitEscape hsmall]
      rfl
    · refine ⟨_, spells_pair (0xd800 + (c.toNat - 0x10000) / 0x400)
        (0xdc00 + (c.toNat - 0x10000) % 0x400) (by omega) (by omega) (by omega), fun rest => ?_⟩
      rw [hrender, charEscape, if_neg hsmall, List.append_assoc, units?_unitEscape (by omega),
        units?_unitEscape (by omega)]
      cases units? rest <;> rfl
  · exact ⟨_, hself, fun rest => hrender ▸ units?_plain hquote hslash hcontrol rest⟩

theorem units?_renderChars (ascii : Bool) (cs rest : List Char) :
    ∃ units, joinPairs units = cs.map Char.toNat ∧
      units? (cs.flatMap (renderChar ascii) ++ '"' :: rest) = some (units, rest) := by
  induction cs with
  | nil => exact ⟨[], rfl, units?_quote rest⟩
  | cons c cs ih =>
    obtain ⟨more, hmore, hread⟩ := ih
    obtain ⟨units, hunits, hchar⟩ := exists_units_renderChar ascii c
    refine ⟨units ++ more, ?_, ?_⟩
    · rw [hunits, hmore, List.map_cons]
    · rw [List.flatMap_cons, List.append_assoc, hchar, hread]
      rfl

theorem renderString_ofString (ascii : Bool) (s : String) :
    renderString ascii (.ofString s) = '"' :: s.toList.flatMap (renderChar ascii) ++ ['"'] := by
  simp [renderString, CodePoints.ofString, List.flatMap_map, renderPoint, CodePoints.isHalf_toNat,
    CodePoints.toChar_toNat]

theorem string?_renderString (ascii : Bool) (s : String) (rest : List Char) :
    string? (s.toList.flatMap (renderChar ascii) ++ '"' :: rest) = some (.ofString s, rest) := by
  obtain ⟨units, hunits, hread⟩ := units?_renderChars ascii s.toList rest
  rw [string?, hread]
  simp [hunits, CodePoints.ofString]

-- ---------------------------------------------------------------------------
-- Integers
-- ---------------------------------------------------------------------------

/-- The text after a value: a comma or a line end comes first in it, if anything does. -/
def Closes (rest : List Char) : Prop := ∀ c, rest.head? = some c → c = ',' ∨ c = '\n'

theorem Closes.ends_number (h : Closes rest) :
    rest.takeWhile Char.isDigit = [] ∧ rest.dropWhile Char.isDigit = rest ∧
      fraction? rest = none ∧ exponent? rest = none := by
  cases rest with
  | nil => exact ⟨rfl, rfl, rfl, rfl⟩
  | cons c rest => rcases h c rfl with rfl | rfl <;> exact ⟨rfl, rfl, rfl, rfl⟩

variable {limit : Option Nat}

/-- An integer has no more digits than a reader takes. -/
def Fits (limit : Option Nat) (n : Nat) : Prop :=
  ∀ most, limit = some most → (Nat.toDigits 10 n).length ≤ most

theorem ofDigits_toDigits (n : Nat) :
    Text.ofDigits ((Nat.toDigits 10 n).map fun c => c.toNat - '0'.toNat) = n := by
  have h := Nat.ofDigitChars_ten_toDigits (n := n)
  rw [Nat.ofDigitChars_eq_foldl] at h
  rw [Text.ofDigits, List.foldl_map, h]

theorem digitChar_ne_zero : ∀ n < 10, 0 < n → [n.digitChar].head? ≠ some '0' := by decide

theorem head?_toDigits_ne_zero (h : 0 < n) : (Nat.toDigits 10 n).head? ≠ some '0' := by
  induction n using Nat.strongRecOn with
  | ind n ih =>
    rcases Nat.lt_or_ge n 10 with hn | hn
    · rw [Nat.toDigits_of_lt_base hn]
      exact digitChar_ne_zero n hn h
    · rw [Nat.toDigits_of_base_le (by decide) hn, List.head?_append_of_ne_nil _ Nat.toDigits_ne_nil]
      exact ih (n / 10) (by omega) (by omega)

theorem whole?_toDigits (n : Nat) (hrest : Closes rest) :
    whole? (Nat.toDigits 10 n ++ rest) = some (Nat.toDigits 10 n, rest) := by
  have hdigits : ∀ c ∈ Nat.toDigits 10 n, c.isDigit = true := fun c hc =>
    Nat.isDigit_of_mem_toDigits (by decide) (by decide) hc
  rcases Nat.eq_zero_or_pos n with rfl | hn
  · rfl
  · have hzero := head?_toDigits_ne_zero hn
    cases hcs : Nat.toDigits 10 n with
    | nil => exact absurd hcs Nat.toDigits_ne_nil
    | cons c cs =>
      rw [hcs] at hzero hdigits
      have hc : c ≠ '0' := by simpa using hzero
      obtain ⟨htake, hdrop, -⟩ := hrest.ends_number
      rw [List.cons_append, whole?, ← List.cons_append, List.takeWhile_append_of_pos hdigits,
        List.dropWhile_append_of_pos hdigits, htake, hdrop]
      · simp
      · simpa using hc

theorem unsigned?_toDigits (negative : Bool) (n : Nat) (hfits : Fits limit n)
    (hrest : Closes rest) : unsigned? limit negative (Nat.toDigits 10 n ++ rest) =
      some (.integer (if negative then -n else n), rest) := by
  have hlimit : limit.any (· < (Nat.toDigits 10 n).length) = false := by
    cases limit with
    | none => rfl
    | some most => simpa using hfits most rfl
  obtain ⟨-, -, hfraction, hexponent⟩ := hrest.ends_number
  rw [unsigned?, whole?_toDigits n hrest]
  simp only [Option.bind_eq_bind, Option.bind_some, hfraction, Option.map_none, Option.getD_none,
    hexponent, hlimit, ofDigits_toDigits]
  rfl

theorem of_isDigit {c : Char} (h : c.isDigit = true) :
    isSpace c = false ∧ c ∉ [']', '"', '[', '\x7b'] := by
  constructor
  · refine Bool.eq_false_iff.mpr fun hspace => ?_
    simp only [isSpace, Bool.or_eq_true, beq_iff_eq] at hspace
    rcases hspace with ((rfl | rfl) | rfl) | rfl <;> simp at h
  · intro hmem
    simp only [List.mem_cons, List.not_mem_nil, or_false] at hmem
    rcases hmem with rfl | rfl | rfl | rfl <;> simp at h

theorem exists_toDigits_cons (n : Nat) :
    ∃ c cs, Nat.toDigits 10 n = c :: cs ∧ c.isDigit = true := by
  obtain ⟨c, cs, h⟩ := List.exists_cons_of_ne_nil (Nat.toDigits_ne_nil (b := 10) (n := n))
  exact ⟨c, cs, h, Nat.isDigit_of_mem_toDigits (by decide) (by decide) (h ▸ List.mem_cons_self)⟩

theorem scalar?_of_isDigit {c : Char} (h : c.isDigit = true) (cs : List Char) :
    scalar? limit (c :: cs) = unsigned? limit false (c :: cs) := by
  rw [scalar?, number?]
  all_goals
    intro rest heq
    obtain ⟨rfl, -⟩ := List.cons.inj heq
    simp at h

theorem scalar?_of_minus {c : Char} (h : c.isDigit = true) (cs : List Char) :
    scalar? limit ('-' :: c :: cs) = unsigned? limit true (c :: cs) := by
  rw [scalar?, number?]
  case x_6 =>
    intro rest heq
    cases heq
    simp at h
  all_goals
    intro rest heq
    cases heq

theorem renderValue_natural (ascii : Bool) (indent n : Nat) :
    renderValue ascii indent (.integer (Int.ofNat n)) = Nat.toDigits 10 n := by
  have hrender : renderValue ascii indent (.integer (Int.ofNat n)) = n.repr.toList := rfl
  rw [hrender, Nat.repr_eq_ofList_toDigits, String.toList_ofList]

theorem renderValue_negative (ascii : Bool) (indent n : Nat) :
    renderValue ascii indent (.integer (Int.negSucc n)) = '-' :: Nat.toDigits 10 (n + 1) := by
  have hrender : renderValue ascii indent (.integer (Int.negSucc n)) =
      ("-" ++ (n + 1).repr).toList := rfl
  simp [hrender, Nat.repr_eq_ofList_toDigits]

theorem scalar?_renderValue_integer (ascii : Bool) (indent : Nat) (n : Int)
    (hfits : Fits limit n.natAbs) (hrest : Closes rest) :
    scalar? limit (renderValue ascii indent (.integer n) ++ rest) = some (.integer n, rest) := by
  cases n with
  | ofNat n =>
    obtain ⟨c, cs, hcs, hc⟩ := exists_toDigits_cons n
    have hread := unsigned?_toDigits false n hfits hrest
    rw [renderValue_natural, hcs, List.cons_append, scalar?_of_isDigit hc, ← List.cons_append,
      ← hcs, hread]
    rfl
  | negSucc n =>
    obtain ⟨c, cs, hcs, hc⟩ := exists_toDigits_cons (n + 1)
    have hread := unsigned?_toDigits true (n + 1) hfits hrest
    rw [renderValue_negative, hcs, List.cons_append, List.cons_append, scalar?_of_minus hc,
      ← List.cons_append, ← hcs, hread]
    rfl

end Json

end BackusNaur

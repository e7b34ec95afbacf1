/-!
# Blanks and line breaks

The characters that separate words, the characters that end lines, and what follows from them:
trimming a text and cutting it into words.
-/

namespace BackusNaur.Text

/-- White space: it separates words and is trimmed from the ends of a line. -/
def isBlank (c : Char) : Bool :=
  let n := c.toNat
  (9 ≤ n && n ≤ 13) || (28 ≤ n && n ≤ 32) || n == 0x85 || n == 0xa0 || n == 0x1680
    || (0x2000 ≤ n && n ≤ 0x200a) || n == 0x2028 || n == 0x2029 || n == 0x202f || n == 0x205f
    || n == 0x3000

/-- A character that ends a line; a carriage return and the line feed after it end one line. -/
def isLineBreak (c : Char) : Bool :=
  let n := c.toNat
  (10 ≤ n && n ≤ 13) || (28 ≤ n && n ≤ 30) || n == 0x85 || n == 0x2028 || n == 0x2029

theorem isBlank_of_isLineBreak {c : Char} (h : isLineBreak c = true) : isBlank c = true := by
  simp only [isLineBreak, isBlank, Bool.or_eq_true, Bool.and_eq_true, decide_eq_true_eq,
    beq_iff_eq] at *
  omega

theorem isLineBreak_of_isBlank_eq_false {c : Char} (h : isBlank c = false) :
    isLineBreak c = false := by
  cases hb : isLineBreak c with
  | false => rfl
  | true => exact absurd (isBlank_of_isLineBreak hb) (by simp [h])

def trimStart (cs : List Char) : List Char := cs.dropWhile isBlank

def trimEnd (cs : List Char) : List Char := (cs.reverse.dropWhile isBlank).reverse

def trim (cs : List Char) : List Char := trimEnd (trimStart cs)

theorem trimStart_eq_self (h : ∀ c, cs.head? = some c → isBlank c = false) :
    trimStart cs = cs := by
  cases cs with
  | nil => rfl
  | cons c cs => exact List.dropWhile_cons_of_neg (by simp [h c rfl])

theorem trim_eq_self (hh : ∀ c, cs.head? = some c → isBlank c = false)
    (hl : ∀ c, cs.getLast? = some c → isBlank c = false) : trim cs = cs := by
  have hr : trimStart cs.reverse = cs.reverse :=
    trimStart_eq_self fun c hc => hl c (by rwa [List.head?_reverse] at hc)
  rw [trim, trimStart_eq_self hh, trimEnd]
  show (trimStart cs.reverse).reverse = cs
  rw [hr, List.reverse_reverse]

/-- The maximal stretches of a text that hold no blank, in order. -/
def words : List Char → List (List Char)
  | [] => []
  | c :: rest =>
    if isBlank c then words rest
    else match rest with
      | [] => [[c]]
      | next :: _ =>
        if isBlank next then [c] :: words rest
        else match words rest with
          | [] => [[c]]
          | word :: others => (c :: word) :: others

variable {c d : Char}

theorem words_cons_of_blank (h : isBlank c = true) (cs : List Char) :
    words (c :: cs) = words cs := by
  rw [words.eq_def]
  simp only [h, ↓reduceIte]

theorem words_singleton (h : isBlank c = false) : words [c] = [[c]] := by
  rw [words.eq_def]
  simp only [h, Bool.false_eq_true, ↓reduceIte]

theorem words_cons_cons_of_blank (h : isBlank c = false) (hd : isBlank d = true) (cs : List Char) :
    words (c :: d :: cs) = [c] :: words cs := by
  rw [words.eq_def]
  simp only [h, hd, Bool.false_eq_true, ↓reduceIte, words_cons_of_blank hd]

theorem words_cons_of_words_eq (h : isBlank c = false) (hd : isBlank d = false)
    (hw : words (d :: cs) = word :: others) : words (c :: d :: cs) = (c :: word) :: others := by
  rw [words.eq_def]
  simp only [h, hd, hw, Bool.false_eq_true, ↓reduceIte]

theorem words_cons_ne_nil (h : isBlank c = false) (cs : List Char) : words (c :: cs) ≠ [] := by
  rw [words.eq_def]
  simp only [h, Bool.false_eq_true, ↓reduceIte]
  split
  · simp
  · split
    · simp
    · split <;> simp

theorem words_append_cons (h : isBlank c = true) (before after : List Char) :
    words (before ++ c :: after) = words before ++ words after := by
  induction before with
  | nil => exact words_cons_of_blank h after
  | cons d rest ih =>
    cases hd : isBlank d with
    | true => rw [List.cons_append, words_cons_of_blank hd, words_cons_of_blank hd, ih]
    | false =>
      cases rest with
      | nil => exact (words_cons_cons_of_blank hd h after).trans (by rw [words_singleton hd]; rfl)
      | cons e rest =>
        cases he : isBlank e with
        | true =>
          rw [List.cons_append, words_cons_of_blank he, words_cons_of_blank he] at ih
          rw [List.cons_append, List.cons_append, words_cons_cons_of_blank hd he,
            words_cons_cons_of_blank hd he, ih]
          rfl
        | false =>
          -- What `d` is next to is the first word of the rest, with or without what comes after.
          obtain ⟨word, others, hw⟩ := List.exists_cons_of_ne_nil (words_cons_ne_nil he rest)
          rw [hw] at ih
          rw [words_cons_of_words_eq hd he hw]
          exact words_cons_of_words_eq hd he ih

theorem words_of_forall_not_blank {cs : List Char} (hne : cs ≠ [])
    (h : ∀ c ∈ cs, isBlank c = false) : words cs = [cs] := by
  induction cs with
  | nil => exact absurd rfl hne
  | cons c rest ih =>
    have hc := h c (.head _)
    cases rest with
    | nil => exact words_singleton hc
    | cons d rest =>
      have hd := h d (.tail _ (.head _))
      exact words_cons_of_words_eq hc hd (ih (by simp) fun e he => h e (.tail _ he))

def wordsOf (text : String) : List String := (words text.toList).map String.ofList

end BackusNaur.Text

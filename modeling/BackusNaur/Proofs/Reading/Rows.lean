import BackusNaur.Proofs.Reading.Acceptance

/-!
# Rows of tokens

What a text is read as depends on the tokens of its lines that are not blank, but for the lines that
definitions are on. So a text can be changed where these rows of tokens stay the same, and a row can
be cut in two where neither part makes a definition that was none before.
-/

namespace BackusNaur

def Token.StartDefinition (ts : List Token) : Prop :=
  ∃ head body, ts = head :: ⟨define, false⟩ :: body

-- ---------------------------------------------------------------------------
-- The rows of a text
-- ---------------------------------------------------------------------------

namespace Line

def row? (line : List Char) : Option (List Token) :=
  let line := Text.trim line
  if line.isEmpty then none else some (Token.ofLine line)

def rows (text : List Char) : List (List Token) := (Text.lines text).filterMap row?

variable {before after line : List Char} {w : Char}

theorem map_tokens_ofText (text : String) : (ofText text).map Line.tokens = rows text.toList := by
  rw [ofText, rows, ← List.zipIdx_map_fst 1 (Text.lines text.toList), List.map_filterMap,
    List.filterMap_map, List.zipIdx_map_fst]
  refine List.filterMap_congr fun entry _ => ?_
  show Option.map Line.tokens (if _ then _ else _) = row? entry.1
  rw [row?]
  split <;> rfl

theorem rows_concat_break (h : Text.isLineBreak w = true) (text : List Char) :
    rows (text ++ [w]) = rows text := by
  rcases Text.lines_concat_break h text with hlines | hlines
  · rw [rows, rows, hlines]
  · rw [rows, rows, hlines, List.filterMap_append]
    exact List.append_nil _

theorem rows_append_break (h : Text.isLineBreak w = true) (before after : List Char) :
    rows (before ++ w :: after) = rows before ++ rows after := by
  by_cases hpair : w = '\r' → after.head? ≠ some '\n'
  · rw [List.append_cons, rows, Text.lines_append, List.filterMap_append]
    · exact congrArg (· ++ rows after) (rows_concat_break h before)
    · intro c hc
      obtain rfl : w = c := by simpa using hc
      exact ⟨h, hpair⟩
  · obtain ⟨rfl, hhead⟩ : w = '\r' ∧ after.head? = some '\n' := by simpa using hpair
    obtain ⟨rest, rfl⟩ := List.head?_eq_some_iff.mp hhead
    have hfeed : Text.isLineBreak '\n' = true := by decide
    have hrest : rows ('\n' :: rest) = rows rest := by
      rw [rows, Text.lines_cons_of_break hfeed (by simp)]
      rfl
    rw [List.append_cons, List.append_cons, rows, Text.lines_append, List.filterMap_append, hrest]
    · refine congrArg (· ++ rows rest) ?_
      exact (rows_concat_break hfeed _).trans (rows_concat_break h _)
    · intro c hc
      obtain rfl : '\n' = c := by simpa using hc
      exact ⟨hfeed, by simp⟩

theorem rows_of_not_break (h : ∀ c ∈ line, Text.isLineBreak c = false) :
    rows line = (row? line).toList := by
  cases line with
  | nil => rfl
  | cons c line =>
    rw [rows, Text.lines_of_not_break (by simp) h, List.filterMap_cons]
    cases row? (c :: line) <;> rfl

end Line

-- ---------------------------------------------------------------------------
-- The first and the last line
-- ---------------------------------------------------------------------------

namespace Text

def firstLine (text : List Char) : List Char := text.takeWhile (!isLineBreak ·)

def lastLine (text : List Char) : List Char := (firstLine text.reverse).reverse

theorem firstLine_not_break {text : List Char} : ∀ c ∈ firstLine text, isLineBreak c = false :=
  fun c hc => by simpa using List.mem_takeWhile_imp hc

theorem lastLine_not_break {text : List Char} : ∀ c ∈ lastLine text, isLineBreak c = false :=
  fun c hc => firstLine_not_break c (by simpa [lastLine] using hc)

theorem eq_firstLine_or (text : List Char) : text = firstLine text ∨
    ∃ c rest, isLineBreak c = true ∧ text = firstLine text ++ c :: rest := by
  have htext := List.takeWhile_append_dropWhile (p := (!isLineBreak ·)) (l := text)
  cases hdrop : text.dropWhile (!isLineBreak ·) with
  | nil =>
    rw [hdrop, List.append_nil] at htext
    exact .inl htext.symm
  | cons c rest =>
    have hc := List.head?_dropWhile_not (!isLineBreak ·) text
    rw [hdrop] at hc htext
    exact .inr ⟨c, rest, by simpa using hc, htext.symm⟩

theorem eq_lastLine_or (text : List Char) : text = lastLine text ∨
    ∃ rest c, isLineBreak c = true ∧ text = rest ++ c :: lastLine text := by
  rcases eq_firstLine_or text.reverse with h | ⟨c, rest, hc, h⟩
  · exact .inl (by rw [lastLine, ← h, List.reverse_reverse])
  · refine .inr ⟨rest.reverse, c, hc, ?_⟩
    rw [lastLine, ← List.reverse_reverse text]
    conv => lhs; rw [h]
    simp

end Text

namespace Line

theorem exists_rows_append (before : List Char) :
    ∃ others, ∀ more, rows (before ++ more) = others ++ rows (Text.lastLine before ++ more) := by
  rcases Text.eq_lastLine_or before with h | ⟨rest, c, hc, h⟩
  · exact ⟨[], fun more => by rw [← h]; rfl⟩
  · refine ⟨rows rest, fun more => ?_⟩
    conv => lhs; rw [h]
    rw [List.append_assoc, List.cons_append, rows_append_break hc]

theorem exists_append_rows (after : List Char) :
    ∃ others, ∀ more, rows (more ++ after) = rows (more ++ Text.firstLine after) ++ others := by
  rcases Text.eq_firstLine_or after with h | ⟨c, rest, hc, h⟩
  · exact ⟨[], fun more => by rw [← h, List.append_nil]⟩
  · refine ⟨rows rest, fun more => ?_⟩
    conv => lhs; rw [h]
    rw [← List.append_assoc, rows_append_break hc]

theorem exists_rows_break (before after : List Char) : ∃ front back,
    (∀ w, Text.isLineBreak w = false → rows (before ++ w :: after) =
      front ++ (row? (Text.lastLine before ++ w :: Text.firstLine after)).toList ++ back) ∧
    ∀ w, Text.isLineBreak w = true → rows (before ++ w :: after) =
      front ++ (row? (Text.lastLine before)).toList ++ (row? (Text.firstLine after)).toList ++
        back := by
  obtain ⟨front, hfront⟩ := exists_rows_append before
  obtain ⟨back, hback⟩ := exists_append_rows after
  have hu := rows_of_not_break (@Text.lastLine_not_break before)
  have hv := rows_of_not_break (@Text.firstLine_not_break after)
  refine ⟨front, back, fun w hw => ?_, fun w hw => ?_⟩
  · have hline : ∀ c ∈ Text.lastLine before ++ w :: Text.firstLine after,
        Text.isLineBreak c = false :=
      List.forall_mem_append.mpr
        ⟨Text.lastLine_not_break, List.forall_mem_cons.mpr ⟨hw, Text.firstLine_not_break⟩⟩
    rw [hfront, List.append_cons, hback, ← List.append_cons, rows_of_not_break hline,
      List.append_assoc]
  · have hbefore := hfront []
    have hafter := hback []
    rw [List.append_nil, List.append_nil, hu] at hbefore
    rw [List.nil_append, List.nil_append, hv] at hafter
    rw [rows_append_break hw, hbefore, hafter, ← List.append_assoc]

end Line

-- ---------------------------------------------------------------------------
-- Lines with the same content
-- ---------------------------------------------------------------------------

def Block.content (b : Block) : Token × List Token := (b.head, b.body)

def Definition.content (d : Definition) : String × Node := (d.name, d.node)

/-- Lines that make blocks of the same content, after loose tokens that are the same. -/
structure Line.Alike (xs ys : List Line) : Prop where
  nil_iff : (Block.cut xs).1 = [] ↔ (Block.cut ys).1 = []
  loose : (Block.cut xs).1.flatMap Line.tokens = (Block.cut ys).1.flatMap Line.tokens
  blocks : (Block.cut xs).2.map Block.content = (Block.cut ys).2.map Block.content

namespace Line.Alike

variable {x y z : Line} {xs ys : List Line}

theorem cons (hxy : x.tokens = y.tokens) (h : Alike xs ys) : Alike (x :: xs) (y :: ys) := by
  by_cases hx : x.Starts
  · obtain ⟨head, body, hx⟩ := hx
    have hy : y.tokens = head :: ⟨Token.define, false⟩ :: body := hxy.symm.trans hx
    constructor
    · simp [Block.cut_cons_of_starts hx, Block.cut_cons_of_starts hy]
    · simp [Block.cut_cons_of_starts hx, Block.cut_cons_of_starts hy]
    · simp [Block.cut_cons_of_starts hx, Block.cut_cons_of_starts hy, Block.content, h.loose,
        h.blocks]
  · have hy : ¬ y.Starts := by
      rw [Starts, hxy] at hx
      exact hx
    constructor
    · simp [Block.cut_cons_of_not_starts hx, Block.cut_cons_of_not_starts hy]
    · simp [Block.cut_cons_of_not_starts hx, Block.cut_cons_of_not_starts hy, hxy, h.loose]
    · simp [Block.cut_cons_of_not_starts hx, Block.cut_cons_of_not_starts hy, h.blocks]

theorem of_tokens_eq (h : xs.map Line.tokens = ys.map Line.tokens) : Alike xs ys := by
  induction xs generalizing ys with
  | nil =>
    obtain rfl : ys = [] := by simpa using h.symm
    exact ⟨.rfl, rfl, rfl⟩
  | cons x xs ih =>
    obtain ⟨y, ys, rfl, hxy, htail⟩ := List.map_eq_cons_iff.mp h.symm
    exact .cons hxy.symm (ih htail.symm)

theorem split (htokens : x.tokens = y.tokens ++ z.tokens) (hx : x.Starts → y.Starts)
    (hz : ¬ z.Starts) (h : Alike xs ys) : Alike (x :: xs) (y :: z :: ys) := by
  by_cases hy : y.Starts
  · obtain ⟨head, body, hy⟩ := hy
    have hx : x.tokens = head :: ⟨Token.define, false⟩ :: (body ++ z.tokens) := by
      rw [htokens, hy]
      rfl
    constructor
    · simp [Block.cut_cons_of_starts hx, Block.cut_cons_of_starts hy]
    · simp [Block.cut_cons_of_starts hx, Block.cut_cons_of_starts hy]
    · simp [Block.cut_cons_of_starts hx, Block.cut_cons_of_starts hy,
        Block.cut_cons_of_not_starts hz, Block.content, h.loose, h.blocks]
  · have hx : ¬ x.Starts := fun hs => hy (hx hs)
    constructor
    · simp [Block.cut_cons_of_not_starts hx, Block.cut_cons_of_not_starts hy]
    · simp [Block.cut_cons_of_not_starts hx, Block.cut_cons_of_not_starts hy,
        Block.cut_cons_of_not_starts hz, htokens, h.loose]
    · simp [Block.cut_cons_of_not_starts hx, Block.cut_cons_of_not_starts hy,
        Block.cut_cons_of_not_starts hz, h.blocks]

theorem of_split {front back : List (List Token)} {ts us : List Token}
    (hx : xs.map Line.tokens = front ++ (ts ++ us) :: back)
    (hy : ys.map Line.tokens = front ++ ts :: us :: back)
    (hts : Token.StartDefinition (ts ++ us) → Token.StartDefinition ts)
    (hus : ¬ Token.StartDefinition us) : Alike xs ys := by
  induction front generalizing xs ys with
  | nil =>
    obtain ⟨x, xs, rfl, hxtokens, hxs⟩ := List.map_eq_cons_iff.mp hx
    obtain ⟨y, others, rfl, rfl, hothers⟩ := List.map_eq_cons_iff.mp hy
    obtain ⟨z, ys, rfl, rfl, hys⟩ := List.map_eq_cons_iff.mp hothers
    refine .split hxtokens (fun hs => hts ?_) hus (.of_tokens_eq (hxs.trans hys.symm))
    rw [← hxtokens]
    exact hs
  | cons row front ih =>
    obtain ⟨x, xs, rfl, rfl, hxs⟩ := List.map_eq_cons_iff.mp hx
    obtain ⟨y, ys, rfl, hxy, hys⟩ := List.map_eq_cons_iff.mp hy
    exact .cons hxy.symm (ih hxs hys)

end Line.Alike

-- ---------------------------------------------------------------------------
-- Reading lines with the same content
-- ---------------------------------------------------------------------------

theorem Block.exists_written_of_content {bs cs : List Block} {ds : List Definition}
    (h : bs.map Block.content = cs.map Block.content) (hw : List.Forall₂ Block.Written bs ds) :
    ∃ es, List.Forall₂ Block.Written cs es ∧
      es.map Definition.content = ds.map Definition.content := by
  induction hw generalizing cs with
  | nil =>
    obtain rfl : cs = [] := by simpa using h.symm
    exact ⟨[], .nil, rfl⟩
  | @cons b d bs ds hb hw ih =>
    obtain ⟨c, cs, rfl, hcb, hcs⟩ := List.map_eq_cons_iff.mp h.symm
    obtain ⟨es, hes, hcontent⟩ := ih hcs.symm
    obtain ⟨hhead, hbody⟩ : c.head = b.head ∧ c.body = b.body := Prod.mk.inj hcb
    refine ⟨⟨d.name, d.node, c.line⟩ :: es, .cons ⟨?_, rfl, ?_, ?_, ?_⟩ hes, ?_⟩
    · exact hhead.trans hb.head
    · exact hbody ▸ hb.body
    · rw [hhead, hbody]
      exact hb.no_self
    · exact hbody ▸ hb.node
    · exact congrArg (d.content :: ·) hcontent

theorem Definition.map_name_of_content {ds es : List Definition}
    (h : es.map content = ds.map content) : es.map name = ds.map name := by
  have hfst := congrArg (List.map Prod.fst) h
  rwa [List.map_map, List.map_map] at hfst

theorem Reading.result_of_alike {xs ys : List Line} {ds : List Definition} (h : Line.Alike xs ys)
    (hx : (ofLines xs).result = .ok ds) :
    ∃ es, (ofLines ys).result = .ok es ∧
      es.map Definition.content = ds.map Definition.content := by
  obtain ⟨hne, bs, hcut, hnodup, hw⟩ := result_ofLines_eq_ok_iff.mp hx
  obtain ⟨hnil, -, hblocks⟩ := h
  rw [hcut.cut_eq] at hnil hblocks
  obtain ⟨es, hes, hcontent⟩ := Block.exists_written_of_content hblocks hw
  have hycut : Block.Cut ys (Block.cut ys).2 := Block.cut_eq_iff.mp (Prod.ext (hnil.mp rfl) rfl)
  refine ⟨es, result_ofLines_eq_ok_iff.mpr ⟨?_, _, hycut, ?_, hes⟩, hcontent⟩
  · rintro rfl
    obtain rfl : bs = [] := by simpa [Block.cut] using hblocks
    cases hcut
    exact hne rfl
  · rwa [Definition.map_name_of_content hcontent]

end BackusNaur

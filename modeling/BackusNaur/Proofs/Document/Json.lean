import BackusNaur.Proofs.Document.Scalars

/-!
# Reading JSON back

A value is read back from its text: the reader takes exactly the characters of the value, whatever
its place among other values, and finds the same fields in the same order.

`Json.read?_renderLine`: reading the line that is written of a value gives this value.
-/

namespace BackusNaur.Json

variable {limit : Option Nat} {ascii : Bool} {v : Value} {items : List Value}
  {fields : List (String × Value)} {known : List (CodePoints × Value)}

-- ---------------------------------------------------------------------------
-- Space
-- ---------------------------------------------------------------------------

theorem skipSpace_cons {c : Char} (h : isSpace c = false) (cs : List Char) :
    skipSpace (c :: cs) = c :: cs := by
  simp [skipSpace, h]

theorem skipSpace_lineStart {c : Char} (h : isSpace c = false) (indent : Nat) (cs : List Char) :
    skipSpace (lineStart indent ++ c :: cs) = c :: cs := by
  have hspaces : ∀ d ∈ lineStart indent, isSpace d = true := by
    simp [lineStart, isSpace]
  rw [skipSpace, List.dropWhile_append_of_pos hspaces]
  exact skipSpace_cons h cs

theorem closes_lineStart (indent : Nat) (rest : List Char) : Closes (lineStart indent ++ rest) := by
  rintro c ⟨⟩
  exact .inr rfl

theorem closes_comma (rest : List Char) : Closes (',' :: rest) := by
  rintro c ⟨⟩
  exact .inl rfl

-- ---------------------------------------------------------------------------
-- Values by themselves
-- ---------------------------------------------------------------------------

/-- A value whose text is read back as this value, wherever a comma or a line end follows it. -/
structure ReadsBack (limit : Option Nat) (ascii : Bool) (v : Value) : Prop where
  starts : ∀ indent, ∃ c cs,
    renderValue ascii indent v = c :: cs ∧ isSpace c = false ∧ c ≠ ']'
  reads : ∀ indent fuel rest, (renderValue ascii indent v).length ≤ fuel → Closes rest →
    value? limit fuel (renderValue ascii indent v ++ rest) = some (v, rest)

theorem ReadsBack.of_scalar
    (hstarts : ∀ indent, ∃ c cs, renderValue ascii indent v = c :: cs ∧
      isSpace c = false ∧ c ∉ [']', '"', '[', '\x7b'])
    (hreads : ∀ indent rest, Closes rest →
      scalar? limit (renderValue ascii indent v ++ rest) = some (v, rest)) :
    ReadsBack limit ascii v := by
  refine ⟨fun indent => ?_, fun indent fuel rest hfuel hrest => ?_⟩
  · obtain ⟨c, cs, hcs, hspace, hc⟩ := hstarts indent
    exact ⟨c, cs, hcs, hspace, List.ne_of_not_mem_cons hc⟩
  · obtain ⟨c, cs, hcs, -, hc⟩ := hstarts indent
    have hread := hreads indent rest hrest
    cases fuel with
    | zero => simp [hcs] at hfuel
    | succ fuel =>
      rw [hcs, List.cons_append] at hread ⊢
      rw [value?, hread]
      all_goals
        intro rest heq
        obtain ⟨rfl, -⟩ := List.cons.inj heq
        simp at hc

theorem ReadsBack.text (s : String) : ReadsBack limit ascii (.text s) := by
  have hrender (indent : Nat) : renderValue ascii indent (.text s) =
      '"' :: s.toList.flatMap (renderChar ascii) ++ ['"'] := by
    rw [renderValue, renderString_ofString]
  refine ⟨fun indent => ⟨_, _, hrender indent, rfl, by decide⟩,
    fun indent fuel rest hfuel _ => ?_⟩
  rw [hrender] at hfuel ⊢
  cases fuel with
  | zero => simp at hfuel
  | succ fuel =>
    rw [List.cons_append, List.cons_append, List.append_assoc, List.singleton_append, value?,
      string?_renderString]
    rfl

-- ---------------------------------------------------------------------------
-- Lists
-- ---------------------------------------------------------------------------

abbrev separator (indent : Nat) : List Char := ',' :: lineStart indent

theorem skipSpace_lineStart_rows {c : Char} {cs : List Char} (h : isSpace c = false)
    (indent : Nat) (rows : List (List Char)) (rest : List Char) :
    skipSpace (lineStart indent ++ ((separator indent).intercalate ((c :: cs) :: rows) ++ rest)) =
      (separator indent).intercalate ((c :: cs) :: rows) ++ rest := by
  rw [List.intercalate_cons_cons_left, List.cons_append, skipSpace_lineStart h]

theorem items?_renderItems (hne : items ≠ []) (hitems : ∀ item ∈ items, ReadsBack limit ascii item)
    (indent outer fuel : Nat) (rest : List Char)
    (hfuel : ((separator indent).intercalate (renderItems ascii indent items)).length < fuel) :
    items? limit fuel ((separator indent).intercalate (renderItems ascii indent items) ++
      (lineStart outer ++ ']' :: rest)) = some (items, rest) := by
  induction items generalizing fuel with
  | nil => exact absurd rfl hne
  | cons item items ih =>
    obtain ⟨hitem, hitems⟩ := List.forall_mem_cons.mp hitems
    cases fuel with
    | zero => exact absurd hfuel (Nat.not_lt_zero _)
    | succ fuel =>
      -- The line of the bracket closes the last item, and a comma every other.
      cases items with
      | nil =>
        rw [renderItems, renderItems, List.intercalate_singleton] at hfuel ⊢
        rw [items?, hitem.reads _ _ _ (by omega) (closes_lineStart _ _)]
        simp [skipSpace_lineStart, isSpace]
      | cons next items =>
        obtain ⟨c, cs, hcs, hspace, -⟩ := (hitems next (.head _)).starts indent
        have hrows : renderItems ascii indent (next :: items) =
            (c :: cs) :: renderItems ascii indent items := by rw [renderItems, hcs]
        rw [renderItems, hrows, List.intercalate_cons_cons] at hfuel ⊢
        rw [List.length_append, List.length_append, List.length_cons] at hfuel
        have hothers := ih (by simp) hitems fuel (by rw [hrows]; omega)
        rw [hrows] at hothers
        rw [List.append_assoc, List.append_assoc, List.cons_append, items?,
          hitem.reads _ _ _ (by omega) (closes_comma _)]
        simp only [Option.bind_eq_bind, Option.bind_some, hothers,
          skipSpace_cons (show isSpace ',' = false by decide), skipSpace_lineStart_rows hspace]
        rfl

theorem enclose_of_ne_nil (opening closing : Char) (indent : Nat) (rows : List (List Char))
    (h : rows ≠ []) : enclose opening closing indent rows =
      opening :: (lineStart (indent + 2) ++ ((separator (indent + 2)).intercalate rows ++
        (lineStart indent ++ [closing]))) := by
  rw [enclose, if_neg (by simpa using h)]
  simp

theorem ReadsBack.list (hitems : ∀ item ∈ items, ReadsBack limit ascii item) :
    ReadsBack limit ascii (.list items) := by
  cases items with
  | nil =>
    refine ⟨fun indent => ⟨_, _, rfl, rfl, by decide⟩, fun indent fuel rest hfuel _ => ?_⟩
    cases fuel with
    | zero => exact absurd hfuel (Nat.not_succ_le_zero _)
    | succ fuel => rfl
  | cons item items =>
    have hrender (indent : Nat) := enclose_of_ne_nil '[' ']' indent
      (renderItems ascii (indent + 2) (item :: items)) nofun
    refine ⟨fun indent => ⟨_, _, hrender indent, rfl, by decide⟩,
      fun indent fuel rest hfuel _ => ?_⟩
    obtain ⟨c, cs, hcs, hspace, hclose⟩ := (hitems item (.head _)).starts (indent + 2)
    rw [renderValue, hrender] at hfuel ⊢
    cases fuel with
    | zero => exact absurd hfuel (Nat.not_succ_le_zero _)
    | succ fuel =>
      have hread := items?_renderItems (by simp) hitems (indent + 2) indent fuel rest
        (by simp at hfuel; omega)
      have hrows : renderItems ascii (indent + 2) (item :: items) =
          (c :: cs) :: renderItems ascii (indent + 2) items := by rw [renderItems, hcs]
      rw [hrows] at hread ⊢
      simp only [List.cons_append, List.append_assoc, List.nil_append]
      rw [value?, skipSpace_lineStart_rows hspace, List.intercalate_cons_cons_left] at *
      split
      · rename_i heq
        exact absurd (List.cons.inj heq).1 hclose
      · rw [hread]
        rfl

-- ---------------------------------------------------------------------------
-- Tables
-- ---------------------------------------------------------------------------

theorem put_of_new {key : CodePoints} {fields : List (CodePoints × Value)}
    (h : key ∉ fields.map Prod.fst) (value : Value) :
    Value.put key value fields = fields ++ [(key, value)] := by
  induction fields with
  | nil => rfl
  | cons field fields ih =>
    rw [List.map_cons, List.mem_cons, not_or] at h
    rw [Value.put, if_neg (Ne.symm h.1), ih h.2, List.cons_append]

def keyed (fields : List (String × Value)) : List (CodePoints × Value) :=
  fields.map fun field => (.ofString field.1, field.2)

def fieldBody (ascii : Bool) (indent : Nat) (field : String × Value) (after : List Char) :
    List Char :=
  field.1.toList.flatMap (renderChar ascii) ++
    '"' :: ':' :: ' ' :: (renderValue ascii indent field.2 ++ after)

theorem renderFields_keyed_cons (ascii : Bool) (indent : Nat) (field : String × Value) :
    renderFields ascii indent (keyed (field :: fields)) =
      ('"' :: fieldBody ascii indent field []) :: renderFields ascii indent (keyed fields) := by
  simp only [keyed, List.map_cons, renderFields, renderString_ofString, fieldBody, List.cons_append,
    List.append_assoc, List.nil_append, List.append_nil]

theorem fieldBody_append (ascii : Bool) (indent : Nat) (field : String × Value)
    (after : List Char) :
    fieldBody ascii indent field [] ++ after = fieldBody ascii indent field after := by
  simp only [fieldBody, List.append_nil, List.append_assoc, List.cons_append]

theorem fields?_fieldBody {field : String × Value} (hfield : ReadsBack limit ascii field.2)
    {indent fuel : Nat} {after : List Char}
    (hfuel : (fieldBody ascii indent field []).length < fuel) (hafter : Closes after)
    (hnew : CodePoints.ofString field.1 ∉ known.map Prod.fst) :
    fields? limit (fuel + 1) known ('"' :: fieldBody ascii indent field after) =
      match skipSpace after with
      | '\x7d' :: rest => some (known ++ keyed [field], rest)
      | ',' :: rest => fields? limit fuel (known ++ keyed [field]) (skipSpace rest)
      | _ => none := by
  obtain ⟨c, cs, hcs, hspace, -⟩ := hfield.starts indent
  have hvalue := hfield.reads indent fuel after (by simp [fieldBody] at hfuel; omega) hafter
  rw [hcs, List.cons_append] at hvalue
  have hgap : skipSpace (' ' :: c :: (cs ++ after)) = c :: (cs ++ after) :=
    skipSpace_cons hspace (cs ++ after)
  rw [fields?, fieldBody, string?_renderString, hcs, List.cons_append]
  simp only [Option.bind_eq_bind, Option.bind_some,
    skipSpace_cons (show isSpace ':' = false by decide), hgap, hvalue, put_of_new hnew]
  rfl

theorem fields?_renderFields (hne : fields ≠ [])
    (hfields : ∀ field ∈ fields, ReadsBack limit ascii field.2)
    (hkeys : (known.map Prod.fst ++ (keyed fields).map Prod.fst).Nodup)
    (indent outer fuel : Nat) (rest : List Char)
    (hfuel : ((separator indent).intercalate
      (renderFields ascii indent (keyed fields))).length < fuel) :
    fields? limit (fuel + 1) known ((separator indent).intercalate
        (renderFields ascii indent (keyed fields)) ++ (lineStart outer ++ '\x7d' :: rest)) =
      some (known ++ keyed fields, rest) := by
  induction fields generalizing known fuel with
  | nil => exact absurd rfl hne
  | cons field fields ih =>
    obtain ⟨hfield, hfields⟩ := List.forall_mem_cons.mp hfields
    have hnew : CodePoints.ofString field.1 ∉ known.map Prod.fst := by
      intro h
      exact (List.nodup_append.mp hkeys).2.2 _ h _ (.head _) rfl
    rw [renderFields_keyed_cons] at hfuel ⊢
    cases fields with
    | nil =>
      have hrows : renderFields ascii indent (keyed []) = [] := rfl
      rw [hrows, List.intercalate_singleton] at hfuel ⊢
      rw [List.cons_append, fieldBody_append, fields?_fieldBody hfield (by simp at hfuel; omega)
        (closes_lineStart _ _) hnew, skipSpace_lineStart (by decide)]
      rfl
    | cons next fields =>
      rw [renderFields_keyed_cons, List.intercalate_cons_cons] at hfuel ⊢
      simp only [List.length_append, List.length_cons] at hfuel
      cases fuel with
      | zero => exact absurd hfuel (Nat.not_lt_zero _)
      | succ fuel =>
        have hnodup : ((known ++ keyed [field]).map Prod.fst ++
            (keyed (next :: fields)).map Prod.fst).Nodup := by
          simpa [keyed] using hkeys
        have hothers := ih (by simp) hfields hnodup fuel (by rw [renderFields_keyed_cons]; omega)
        rw [renderFields_keyed_cons] at hothers
        rw [List.append_assoc, List.append_assoc, List.cons_append, List.cons_append,
          fieldBody_append, fields?_fieldBody hfield (by omega) (closes_comma _) hnew,
          skipSpace_cons (by decide)]
        simp only [skipSpace_lineStart_rows (show isSpace '"' = false by decide), hothers]
        simp [keyed]

theorem codePoints_ofString_inj {s t : String} :
    CodePoints.ofString s = CodePoints.ofString t ↔ s = t := by
  refine ⟨fun h => ?_, congrArg _⟩
  rw [← CodePoints.text_ofString s, h, CodePoints.text_ofString]

theorem ReadsBack.table (hkeys : (fields.map Prod.fst).Nodup)
    (hfields : ∀ field ∈ fields, ReadsBack limit ascii field.2) :
    ReadsBack limit ascii (.table (keyed fields)) := by
  cases fields with
  | nil =>
    refine ⟨fun indent => ⟨_, _, rfl, rfl, by decide⟩, fun indent fuel rest hfuel _ => ?_⟩
    cases fuel with
    | zero => exact absurd hfuel (Nat.not_succ_le_zero _)
    | succ fuel => rfl
  | cons field fields =>
    have hrows (indent : Nat) :
        renderFields ascii indent (keyed (field :: fields)) =
          ('"' :: fieldBody ascii indent field []) :: renderFields ascii indent (keyed fields) :=
      renderFields_keyed_cons ascii indent field
    have hrender (indent : Nat) := enclose_of_ne_nil '\x7b' '\x7d' indent
      (renderFields ascii (indent + 2) (keyed (field :: fields))) (by rw [hrows]; simp)
    have hnodup : ((keyed (field :: fields)).map Prod.fst).Nodup := by
      have hmap : (keyed (field :: fields)).map Prod.fst =
          ((field :: fields).map Prod.fst).map CodePoints.ofString := by simp [keyed]
      rw [hmap]
      exact List.pairwise_map.mpr (hkeys.imp fun hne h => hne (codePoints_ofString_inj.mp h))
    refine ⟨fun indent => ⟨_, _, hrender indent, rfl, by decide⟩,
      fun indent fuel rest hfuel _ => ?_⟩
    rw [renderValue, hrender] at hfuel ⊢
    match fuel with
    | 0 => exact absurd hfuel (Nat.not_succ_le_zero _)
    | 1 => simp at hfuel
    -- The table takes one unit of fuel and its first field the other.
    | fuel + 2 =>
      have hread : fields? limit (fuel + 1) []
            ((separator (indent + 2)).intercalate
              (renderFields ascii (indent + 2) (keyed (field :: fields))) ++
                (lineStart indent ++ '\x7d' :: rest)) = some (keyed (field :: fields), rest) :=
        fields?_renderFields (by simp) hfields (by simpa using hnodup) (indent + 2) indent fuel rest
          (by simp [lineStart] at hfuel; omega)
      rw [hrows] at hread ⊢
      simp only [List.cons_append, List.append_assoc, List.nil_append]
      rw [value?, skipSpace_lineStart_rows (by decide), List.intercalate_cons_cons_left] at *
      split
      · rename_i heq
        cases heq
      · rw [hread]
        rfl

-- ---------------------------------------------------------------------------
-- All values
-- ---------------------------------------------------------------------------

/-- A value that can be read back from its text: its strings hold no half of a surrogate pair, its
integers fit, the keys of its tables differ, and no number in it has a point. -/
inductive Faithful (limit : Option Nat) : Value → Prop
  | null : Faithful limit .null
  | bool (b : Bool) : Faithful limit (.bool b)
  | integer (n : Int) (h : Fits limit n.natAbs) : Faithful limit (.integer n)
  | text (s : String) : Faithful limit (.text s)
  | list {items : List Value} (h : ∀ item ∈ items, Faithful limit item) :
    Faithful limit (.list items)
  | table {fields : List (String × Value)} (hkeys : (fields.map Prod.fst).Nodup)
    (h : ∀ field ∈ fields, Faithful limit field.2) : Faithful limit (.table (keyed fields))

theorem Faithful.readsBack (h : Faithful limit v) (ascii : Bool) : ReadsBack limit ascii v := by
  induction h with
  | null =>
    refine .of_scalar (fun indent => ⟨_, _, rfl, ?_⟩) fun indent rest _ => rfl
    decide
  | bool b =>
    cases b
    all_goals
      refine .of_scalar (fun indent => ⟨_, _, rfl, ?_⟩) fun indent rest _ => rfl
      decide
  | integer n h =>
    refine .of_scalar (fun indent => ?_) fun indent rest hrest =>
      scalar?_renderValue_integer ascii indent n h hrest
    cases n with
    | ofNat n =>
      obtain ⟨c, cs, hcs, hc⟩ := exists_toDigits_cons n
      exact ⟨c, cs, by rw [renderValue_natural, hcs], of_isDigit hc⟩
    | negSucc n => exact ⟨_, _, renderValue_negative ascii indent n, by decide⟩
  | text s => exact .text s
  | list _ ih => exact .list ih
  | table hkeys _ ih => exact .table hkeys ih

/-- A value is read back from the line that is written of it. -/
theorem read?_renderLine (h : Faithful limit v) (ascii : Bool) :
    read? (render v ascii ++ "\n").toList limit = some v := by
  obtain ⟨c, cs, hcs, hspace, -⟩ := (h.readsBack ascii).starts 0
  have htext : (render v ascii ++ "\n").toList = renderValue ascii 0 v ++ ['\n'] := by
    simp [render]
  have hread := (h.readsBack ascii).reads 0
    (2 * (renderValue ascii 0 v ++ ['\n']).length + 2) ['\n'] (by simp; omega) (by simp [Closes])
  have hskip : skipSpace (renderValue ascii 0 v ++ ['\n']) = renderValue ascii 0 v ++ ['\n'] := by
    rw [hcs, List.cons_append, skipSpace_cons hspace]
  rw [read?, htext, hskip, hread]
  rfl

end BackusNaur.Json

import BackusNaur.Proofs.Reading.Printing

/-!
# Tokens read back

Reading the tokens of a well-formed right-hand side builds it again: `Node.ofTokens_tokens`. The
equations before it say what the reader does at each construct, whatever comes after.
-/

namespace BackusNaur

-- ---------------------------------------------------------------------------
-- Segments
-- ---------------------------------------------------------------------------

namespace Segment

variable {ts rest : List Token}

theorem isPlain_eq_true {t : Token} : isPlain t = true ↔ isOpen t = false ∧ isClose t = false := by
  simp [isPlain]

theorem isClose_of_isOpen {t : Token} (h : isOpen t = true) : isClose t = false := by
  simp only [isOpen, Token.isOperator, Bool.and_eq_true, beq_iff_eq] at h
  simp [isClose, Token.isOperator, h]

theorem takeWhile_eq_nil (h : ∀ t, rest.head? = some t → isPlain t = false) :
    rest.takeWhile isPlain = [] ∧ rest.dropWhile isPlain = rest := by
  cases rest with
  | nil => exact ⟨rfl, rfl⟩
  | cons t rest => simp [h t rfl]

theorem ofTokens_run (hne : ts ≠ []) (hp : ∀ t ∈ ts, isPlain t = true)
    (hr : ∀ t, rest.head? = some t → isPlain t = false) :
    ofTokens (ts ++ rest) = (ofTokens rest).map (.run (ts.map itemOfToken) :: ·) := by
  cases ts with
  | nil => exact absurd rfl hne
  | cons t ts =>
    have ht := isPlain_eq_true.mp (hp t (.head _))
    have hs : ∀ s ∈ ts, isPlain s = true := fun s hs => hp s (.tail _ hs)
    obtain ⟨htake, hdrop⟩ := takeWhile_eq_nil hr
    rw [List.cons_append, ofTokens, if_neg (by simp [ht]), if_neg (by simp [ht]),
      List.takeWhile_append_of_pos hs, List.dropWhile_append_of_pos hs, htake, hdrop,
      List.append_nil]
    cases ofTokens rest <;> rfl

theorem ofTokens_group {o c : Token} (ho : isOpen o = true) (hp : ∀ t ∈ ts, isPlain t = true)
    (hc : isClose c = true) : ofTokens (o :: ts ++ c :: rest) =
      (ofTokens (takeQuantifier rest).2).map
        (.group (ts.map itemOfToken) (takeQuantifier rest).1 :: ·) := by
  have hs : ∀ t ∈ ts, (!isClose t) = true := fun t ht => by
    simp [(isPlain_eq_true.mp (hp t ht)).2]
  have htake : (ts ++ c :: rest).takeWhile (!isClose ·) = ts := by
    rw [List.takeWhile_append_of_pos hs]
    simp [hc]
  have hdrop : (ts ++ c :: rest).dropWhile (!isClose ·) = c :: rest := by
    rw [List.dropWhile_append_of_pos hs]
    simp [hc]
  have hany : ts.any isOpen = false := by
    rw [List.any_eq_false]
    exact fun t ht => by simp [(isPlain_eq_true.mp (hp t ht)).1]
  rw [List.cons_append, ofTokens, if_neg (by simp [isClose_of_isOpen ho]), if_pos ho]
  split
  · rename_i hnil
    rw [hdrop] at hnil
    cases hnil
  · rename_i hcons
    rw [hdrop] at hcons
    cases hcons
    simp only [htake, hany, Bool.false_eq_true, ↓reduceIte]
    cases ofTokens (takeQuantifier rest).2 <;> rfl

theorem takeQuantifier_render (q : Quantifier) (rest : List Token) :
    takeQuantifier (⟨q.render, false⟩ :: rest) = (q, rest) := by
  have hq : Quantifier.ofText? q.render = some q := Quantifier.ofText?_eq_some_iff.mpr rfl
  simp [takeQuantifier, hq]

end Segment

-- ---------------------------------------------------------------------------
-- Tokens of items
-- ---------------------------------------------------------------------------

theorem Token.symbol?_ofName (name : String) : (Token.ofName name).symbol? = some name := by
  have hi : insideAngles? (Token.ofName name).text.toList = some name.toList := by
    rw [toList_ofName, List.cons_append, insideAngles?, if_pos (by simp), List.dropLast_concat]
  rw [symbol?, hi]
  simp [ofName]

theorem Segment.itemOfToken_token (item : Item) : itemOfToken item.token = item := by
  cases item with
  | literal text => rfl
  | reference name => simp [itemOfToken, Item.token, Token.symbol?_ofName]

theorem Segment.map_itemOfToken_token (items : List Item) :
    (items.map Item.token).map itemOfToken = items := by
  simp [itemOfToken_token, Function.comp_def]

theorem Item.isOperator_token {op : String} (h : op.toList.head? ≠ some '<') (item : Item) :
    item.token.isOperator op = false := by
  cases item with
  | literal text => rfl
  | reference name =>
    simpa [token, Token.isOperator] using fun _ => Token.text_ofName_ne h

theorem Item.isPlain_token (item : Item) : Segment.isPlain item.token = true :=
  Segment.isPlain_eq_true.mpr
    ⟨item.isOperator_token (by decide), item.isOperator_token (by decide)⟩

-- ---------------------------------------------------------------------------
-- Right-hand sides
-- ---------------------------------------------------------------------------

theorem Item.isPlain_of_mem {items : List Item} {t : Token} (h : t ∈ items.map token) :
    Segment.isPlain t = true := by
  obtain ⟨item, -, rfl⟩ := List.mem_map.mp h
  exact item.isPlain_token

theorem Segment.ofTokens_tokens {parts : List Segment} (hp : ∀ part ∈ parts, part.WellFormed)
    (hc : parts.IsChain fun p q => ¬ (p.isRun ∧ q.isRun)) :
    ofTokens (parts.flatMap tokens) = .ok parts := by
  induction parts with
  | nil => rw [List.flatMap_nil, ofTokens]
  | cons part rest ih =>
    have hrest := ih (fun p h => hp p (.tail _ h)) hc.tail
    rw [List.flatMap_cons]
    cases part with
    | run items =>
      have hne : items ≠ [] := (hp _ (.head _)).1 rfl
      have hstop : ∀ t, (rest.flatMap tokens).head? = some t → isPlain t = false := by
        cases rest with
        | nil => simp
        | cons next rest =>
          -- What comes after a run is a group, since runs are not next to each other.
          cases next with
          | run => exact absurd ⟨rfl, rfl⟩ (List.isChain_cons_cons.mp hc).1
          | group =>
            rintro t ⟨⟩
            rfl
      rw [tokens, ofTokens_run (by simpa using hne) (fun t => Item.isPlain_of_mem) hstop, hrest,
        map_itemOfToken_token]
      rfl
    | group items quantifier =>
      have hg : ∀ us, tokens (.group items quantifier) ++ us =
          ⟨"\x7b", false⟩ :: items.map Item.token ++
            ⟨"\x7d", false⟩ :: ⟨quantifier.render, false⟩ :: us := by simp [tokens]
      rw [hg, ofTokens_group rfl (fun t => Item.isPlain_of_mem) rfl, takeQuantifier_render, hrest,
        map_itemOfToken_token]
      rfl

theorem Segment.tokens_ne_nil {part : Segment} (h : part.WellFormed) : part.tokens ≠ [] := by
  cases part with
  | run items =>
    have hne : items ≠ [] := h.1 rfl
    simpa [tokens] using hne
  | group => simp [tokens]

theorem Segment.isOperator_of_mem_tokens {part : Segment} {t : Token} {op : String}
    (h : t ∈ part.tokens) (hi : ∀ item ∈ part.items, item.token.isOperator op = false)
    (ho : op ∉ ["\x7b", "\x7d", "*", "+", "?"]) : t.isOperator op = false := by
  have hitem : ∀ t ∈ part.items.map Item.token, t.isOperator op = false := by
    intro t ht
    obtain ⟨item, hm, rfl⟩ := List.mem_map.mp ht
    exact hi item hm
  simp only [List.mem_cons, List.not_mem_nil, or_false, not_or] at ho
  obtain ⟨hopen, hclose, hstar, hplus, hmark⟩ := ho
  cases part with
  | run items => exact hitem t h
  | group items quantifier =>
    simp only [tokens, List.cons_append, List.mem_cons, List.mem_append, List.not_mem_nil,
      or_false] at h
    rcases h with rfl | h | rfl | rfl
    · simp [Token.isOperator, Ne.symm hopen]
    · exact hitem t h
    · simp [Token.isOperator, Ne.symm hclose]
    · cases quantifier <;>
        simp [Token.isOperator, Quantifier.render, Ne.symm hstar, Ne.symm hplus, Ne.symm hmark]

theorem Segment.isBar_of_mem_tokens {part : Segment} {t : Token} (h : t ∈ part.tokens) :
    Node.isBar t = false :=
  isOperator_of_mem_tokens h (fun item _ => item.isOperator_token (by decide)) (by decide)

namespace Node

theorem tokens_ne_nil {node : Node} (h : node.WellFormed) : node.tokens ≠ [] := by
  cases node with
  | alternation left right => simp [tokens]
  | sequence parts =>
    obtain ⟨hne, hp, -⟩ := h
    obtain ⟨part, rest, rfl⟩ := List.exists_cons_of_ne_nil hne
    simp [tokens, Segment.tokens_ne_nil (hp part (.head _))]

theorem ofAlternative_eq_ok {parts : List Segment} (h : (sequence parts).WellFormed) :
    ofAlternative (sequence parts).tokens = .ok (sequence parts) := by
  rw [ofAlternative, List.isEmpty_eq_false_iff.mpr (tokens_ne_nil h), tokens,
    Segment.ofTokens_tokens h.2.1 h.2.2]
  rfl

/-- The last bar splits the alternative after it from all before it. -/
theorem ofTokens_append_bar {ts us : List Token} {bar : Token} (hb : isBar bar = true)
    (hu : ∀ t ∈ us, isBar t = false) (hl : ofTokens ts = .ok left)
    (hr : ofAlternative us = .ok right) :
    ofTokens (ts ++ bar :: us) = .ok (alternation left right) := by
  rw [ofTokens] at hl ⊢
  rw [pieces_append_cons hb, pieces_of_forall_not hu, List.mapM_append]
  cases hm : (pieces isBar ts).mapM ofAlternative with
  | error => rw [hm] at hl; cases hl
  | ok nodes =>
    rw [hm] at hl
    have hlast : [us].mapM ofAlternative = .ok [right] := by
      rw [List.mapM_cons, hr]
      rfl
    cases nodes with
    | nil => cases hl
    | cons first others =>
      obtain rfl := Except.ok.inj hl
      rw [hlast]
      show Except.ok ((others ++ [right]).foldl alternation first) = _
      rw [List.foldl_append]
      rfl

theorem ofTokens_tokens {node : Node} (h : node.WellFormed) : ofTokens node.tokens = .ok node := by
  induction node with
  | alternation left right ihl ihr =>
    obtain ⟨hl, ⟨parts, rfl⟩, hr⟩ := h
    refine ofTokens_append_bar rfl (fun t ht => ?_) (ihl hl) (ofAlternative_eq_ok hr)
    obtain ⟨part, -, hm⟩ := List.mem_flatMap.mp ht
    exact Segment.isBar_of_mem_tokens hm
  | sequence parts =>
    have hbar : ∀ t ∈ (sequence parts).tokens, isBar t = false := fun t ht => by
      obtain ⟨part, -, hm⟩ := List.mem_flatMap.mp ht
      exact Segment.isBar_of_mem_tokens hm
    rw [ofTokens, pieces_of_forall_not hbar, List.mapM_cons, ofAlternative_eq_ok h]
    rfl

end Node

end BackusNaur

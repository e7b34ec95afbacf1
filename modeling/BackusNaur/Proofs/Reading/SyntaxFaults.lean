import BackusNaur.Diagnostic
import BackusNaur.Proofs.Reading.Syntax

/-!
# Faults of right-hand sides

A group is an opening and a closing brace with no brace between them. Tokens can be cut into runs
and groups if every brace is one of the two of a group, and the first brace that is not says what is
wrong with them: `Segment.ofTokens_eq_error_iff`.

A right-hand side has the fault of its first alternative that has one, which is its first stray
brace or that it is empty: `Node.ofTokens_eq_error_iff`.
-/

namespace BackusNaur

theorem Quantifier.Written.exists_append {after rest : List Token} {q : Quantifier}
    (h : Written after q rest) : ∃ mark, after = mark ++ rest ∧ ∀ t ∈ mark, ¬ t.IsBrace := by
  cases h with
  | mark => exact ⟨[⟨q.render, false⟩], rfl, by cases q <;> simp [Token.IsBrace, render]⟩
  | none => exact ⟨[], rfl, by simp⟩

namespace Segment

variable {ts us vs before inside after rest : List Token} {t brace : Token} {topic : Topic}
  {fault : DefinitionFault}

-- ---------------------------------------------------------------------------
-- Groups
-- ---------------------------------------------------------------------------

/-- The token between `before` and `after` is one of the two braces of a group. -/
inductive Bounds (before : List Token) (t : Token) (after : List Token) : Prop
  | opens {inside rest : List Token} (ht : t = ⟨"\x7b", false⟩)
    (hafter : after = inside ++ ⟨"\x7d", false⟩ :: rest) (hplain : ∀ s ∈ inside, ¬ s.IsBrace) :
    Bounds before t after
  | closes {front inside : List Token} (ht : t = ⟨"\x7d", false⟩)
    (hbefore : before = front ++ ⟨"\x7b", false⟩ :: inside) (hplain : ∀ s ∈ inside, ¬ s.IsBrace) :
    Bounds before t after

/-- Every brace is one of the two of a group. -/
def Balanced (ts : List Token) : Prop :=
  ∀ before t after, ts = before ++ t :: after → t.IsBrace → Bounds before t after

theorem Bounds.append_left (h : Bounds before t after) (us : List Token) :
    Bounds (us ++ before) t after := by
  cases h with
  | opens ht hafter hplain => exact .opens ht hafter hplain
  | closes ht hbefore hplain =>
    exact .closes ht (by rw [hbefore, List.append_assoc]) hplain

theorem Bounds.append_right (h : Bounds before t after) (us : List Token) :
    Bounds before t (after ++ us) := by
  cases h with
  | opens ht hafter hplain =>
    exact .opens ht (by rw [hafter, List.append_assoc, List.cons_append]) hplain
  | closes ht hbefore hplain => exact .closes ht hbefore hplain

theorem balanced_of_plain (h : ∀ t ∈ ts, ¬ t.IsBrace) : Balanced ts := by
  rintro before t after rfl ht
  exact absurd ht (h t (by simp))

theorem balanced_group (h : ∀ t ∈ inside, ¬ t.IsBrace) :
    Balanced (⟨"\x7b", false⟩ :: inside ++ [⟨"\x7d", false⟩]) := by
  intro before t after heq ht
  rcases append_eq_append_cons heq with ⟨more, hinside, rfl⟩ | ⟨more, rfl, hclose⟩
  · cases before with
    | nil =>
      obtain ⟨rfl, rfl⟩ := List.cons.inj hinside
      exact .opens rfl rfl h
    | cons s before =>
      obtain ⟨-, rfl⟩ := List.cons.inj hinside
      exact absurd ht (h t (by simp))
  · rcases List.cons_eq_append_iff.mp hclose with ⟨rfl, hcons⟩ | ⟨more, -, hnil⟩
    · obtain ⟨rfl, rfl⟩ := List.cons.inj hcons
      rw [List.append_nil]
      exact .closes rfl (List.nil_append _).symm h
    · simp at hnil

theorem Balanced.append (hu : Balanced us) (hv : Balanced vs) : Balanced (us ++ vs) := by
  intro before t after heq ht
  rcases append_eq_append_cons heq with ⟨more, rfl, rfl⟩ | ⟨more, rfl, rfl⟩
  · exact (hu _ _ _ rfl ht).append_right vs
  · exact (hv _ _ _ rfl ht).append_left us

theorem Bounds.of_append_left (hu : Balanced us) (h : Bounds (us ++ before) t after) :
    Bounds before t after := by
  cases h with
  | opens ht hafter hplain => exact .opens ht hafter hplain
  | closes ht hbefore hplain =>
    rcases append_eq_append_cons hbefore with ⟨more, rfl, rfl⟩ | ⟨more, -, rfl⟩
    · -- The opening brace has its closing brace before the end of the balanced tokens.
      cases hu _ _ _ rfl (.inl rfl) with
      | opens _ hmore => exact absurd (.inr rfl) (hplain ⟨"\x7d", false⟩ (by simp [hmore]))
      | closes hopen => simp at hopen
    · exact .closes ht rfl hplain

theorem Written.balanced {parts : List Segment} (h : Written ts parts) : Balanced ts := by
  induction h with
  | none => exact balanced_of_plain nofun
  | run _ hplain _ _ ih => exact (balanced_of_plain hplain).append ih
  | group hplain _ hq _ ih =>
    obtain ⟨mark, rfl, hmark⟩ := hq.exists_append
    simpa using ((balanced_group hplain).append (balanced_of_plain hmark)).append ih

-- ---------------------------------------------------------------------------
-- The first stray brace
-- ---------------------------------------------------------------------------

/-- Between `before` and `after` the tokens have their first brace that bounds no group. -/
structure FirstStray (ts before : List Token) (brace : Token) (after : List Token) : Prop where
  eq : ts = before ++ brace :: after
  isBrace : brace.IsBrace
  stray : ¬ Bounds before brace after
  first : ∀ front t back, before = front ++ t :: back → t.IsBrace →
    Bounds front t (back ++ brace :: after)

theorem FirstStray.append (h : FirstStray ts before brace after) (hu : Balanced us) :
    FirstStray (us ++ ts) (us ++ before) brace after where
  eq := by rw [h.eq, List.append_assoc]
  isBrace := h.isBrace
  stray := fun hbounds => h.stray (hbounds.of_append_left hu)
  first := by
    intro front t back heq ht
    rcases append_eq_append_cons heq with ⟨more, rfl, rfl⟩ | ⟨more, rfl, hbefore⟩
    · rw [List.append_assoc]
      exact (hu _ _ _ rfl ht).append_right _
    · exact (h.first _ _ _ hbefore ht).append_left us

theorem firstStray_cons (ht : t.IsBrace) (h : ¬ Bounds [] t rest) :
    FirstStray (t :: rest) [] t rest :=
  ⟨rfl, ht, h, by simp⟩

theorem FirstStray.not_balanced (h : FirstStray ts before brace after) : ¬ Balanced ts :=
  fun hbalanced => h.stray (hbalanced _ _ _ h.eq h.isBrace)

/-- There is one first stray brace at most. -/
theorem FirstStray.unique {before' after' : List Token} {brace' : Token}
    (h : FirstStray ts before brace after) (h' : FirstStray ts before' brace' after') :
    brace = brace' ∧ after = after' := by
  have heq : before ++ brace :: after = before' ++ brace' :: after' := h.eq.symm.trans h'.eq
  rcases append_eq_append_cons heq with ⟨more, hbefore, rfl⟩ | ⟨more, hbefore, hafter⟩
  · -- The one of `h'` would come first, but `h` says that it bounds a group.
    exact absurd (h.first _ _ _ hbefore h'.isBrace) h'.stray
  · rcases List.cons_eq_append_iff.mp hafter with ⟨rfl, hcons⟩ | ⟨more, rfl, rfl⟩
    · obtain ⟨rfl, rfl⟩ := List.cons.inj hcons
      exact ⟨rfl, rfl⟩
    · exact absurd (h'.first _ _ _ hbefore h.isBrace) h.stray

-- ---------------------------------------------------------------------------
-- Faults
-- ---------------------------------------------------------------------------

/-- What the first stray brace says: a closing one has no group to close, an opening one has no
closing brace after it, or another opening one before that. -/
inductive Faulty (ts : List Token) : Topic → DefinitionFault → Prop
  | strayClose {before after : List Token} (h : FirstStray ts before ⟨"\x7d", false⟩ after) :
    Faulty ts .unmatchedGroup .strayClose
  | unclosed {before after : List Token} (h : FirstStray ts before ⟨"\x7b", false⟩ after)
    (hclose : ⟨"\x7d", false⟩ ∉ after) : Faulty ts .unmatchedGroup .unclosedGroup
  | nested {before inside rest : List Token}
    (h : FirstStray ts before ⟨"\x7b", false⟩ (inside ++ ⟨"\x7d", false⟩ :: rest))
    (hclose : ⟨"\x7d", false⟩ ∉ inside) (hopen : ⟨"\x7b", false⟩ ∈ inside) :
    Faulty ts .nestedGroups .nestedGroup

theorem Faulty.topic_eq (h : Faulty ts topic fault) : fault.topic = topic := by
  cases h <;> rfl

theorem Faulty.not_balanced (h : Faulty ts topic fault) : ¬ Balanced ts := by
  cases h with
  | strayClose h | unclosed h | nested h => exact h.not_balanced

theorem Faulty.append (h : Faulty ts topic fault) (hu : Balanced us) :
    Faulty (us ++ ts) topic fault := by
  cases h with
  | strayClose h => exact .strayClose (h.append hu)
  | unclosed h hclose => exact .unclosed (h.append hu) hclose
  | nested h hclose hopen => exact .nested (h.append hu) hclose hopen

theorem Faulty.unique {topic' : Topic} {fault' : DefinitionFault} (h : Faulty ts topic fault)
    (h' : Faulty ts topic' fault') : fault = fault' := by
  cases h with
  | strayClose h =>
    cases h' with
    | strayClose => rfl
    | unclosed h' | nested h' => simpa using (h.unique h').1
  | unclosed h hclose =>
    cases h' with
    | strayClose h' => simpa using (h.unique h').1
    | unclosed => rfl
    | nested h' =>
      obtain ⟨-, rfl⟩ := h.unique h'
      simp at hclose
  | nested h =>
    cases h' with
    | strayClose h' => simpa using (h.unique h').1
    | unclosed h' hclose =>
      obtain ⟨-, rfl⟩ := h.unique h'
      simp at hclose
    | nested => rfl

theorem not_bounds_close : ¬ Bounds [] ⟨"\x7d", false⟩ rest := by
  rintro (⟨ht, -, -⟩ | ⟨-, hbefore, -⟩)
  · simp at ht
  · simp at hbefore

theorem not_bounds_unclosed (h : ⟨"\x7d", false⟩ ∉ rest) :
    ¬ Bounds before ⟨"\x7b", false⟩ rest := by
  rintro (⟨-, rfl, -⟩ | ⟨ht, -, -⟩)
  · simp at h
  · simp at ht

theorem not_bounds_nested (hclose : ⟨"\x7d", false⟩ ∉ inside) (hopen : ⟨"\x7b", false⟩ ∈ inside) :
    ¬ Bounds before ⟨"\x7b", false⟩ (inside ++ ⟨"\x7d", false⟩ :: rest) := by
  rintro (⟨-, hafter, hplain⟩ | ⟨ht, -, -⟩)
  · rcases append_eq_append_cons hafter with ⟨more, rfl, -⟩ | ⟨more, rfl, -⟩
    · simp at hclose
    · exact hplain _ (List.mem_append_left _ hopen) (.inl rfl)
  · simp at ht

theorem faulty_of_ofTokens (h : ofTokens ts = .error fault) : Faulty ts fault.topic fault := by
  induction ts using ofTokens.induct with
  | case1 =>
    rw [ofTokens] at h
    cases h
  | case2 t rest hc =>
    rw [ofTokens, if_pos hc] at h
    cases h
    obtain rfl := Token.isOperator_iff.mp hc
    exact .strayClose (firstStray_cons (.inr rfl) not_bounds_close)
  | case3 t rest hc ho hdrop =>
    rw [ofTokens, if_neg hc, if_pos ho] at h
    split at h
    · cases h
      obtain rfl := Token.isOperator_iff.mp ho
      have hclose : ⟨"\x7d", false⟩ ∉ rest := fun hmem => by
        have hnot := List.dropWhile_eq_nil_iff.mp hdrop _ hmem
        simp [isClose, Token.isOperator] at hnot
      exact .unclosed (firstStray_cons (.inl rfl) (not_bounds_unclosed hclose)) hclose
    · rename_i hcons
      rw [hdrop] at hcons
      cases hcons
  | case4 t rest hc ho c after hdrop inside hany =>
    rw [ofTokens, if_neg hc, if_pos ho] at h
    split at h
    · rename_i hnil
      rw [hdrop] at hnil
      cases hnil
    · rw [if_pos hany] at h
      cases h
      obtain rfl := Token.isOperator_iff.mp ho
      obtain ⟨hrest, hclose⟩ := eq_append_of_dropWhile hdrop
      have hnone : ⟨"\x7d", false⟩ ∉ inside := fun hmem => by
        have hnot := List.mem_takeWhile_imp hmem
        simp [isClose, Token.isOperator] at hnot
      obtain ⟨s, hs, hopen⟩ := List.any_eq_true.mp hany
      rw [hrest, Token.isOperator_iff.mp hclose]
      rw [Token.isOperator_iff.mp hopen] at hs
      exact .nested (firstStray_cons (.inl rfl) (not_bounds_nested hnone hs)) hnone hs
  | case5 t rest hc ho c after hdrop inside hany tail ih =>
    obtain ⟨hrest, hclose, hplain⟩ : rest = inside ++ c :: after ∧ isClose c = true ∧
        ∀ s ∈ inside, isPlain s = true := eq_append_close hdrop hany
    rw [hrest, ← List.cons_append, ofTokens_group ho hplain hclose, exceptMap_eq_error] at h
    have hq : Quantifier.Written after tail.1 tail.2 := takeQuantifier_eq_iff.mp rfl
    obtain ⟨mark, hafter, hmark⟩ := hq.exists_append
    have hgroup := balanced_group fun s hs => isPlain_iff.mp (hplain s hs)
    have hfaulty := (ih h).append (hgroup.append (balanced_of_plain hmark))
    rw [hrest, hafter, Token.isOperator_iff.mp ho, Token.isOperator_iff.mp hclose]
    simpa using hfaulty
  | case6 t rest hc ho ih =>
    have ht : isPlain t = true := isPlain_eq_true.mpr ⟨by simpa using ho, by simpa using hc⟩
    rw [ofTokens_cons_of_plain ht, exceptMap_eq_error] at h
    have hfaulty := (ih h).append (balanced_of_plain (not_isBrace_of_mem_run ht rest))
    rwa [List.cons_append, List.takeWhile_append_dropWhile] at hfaulty

/-- The first stray brace of the tokens, and nothing else, is what is wrong with them. -/
theorem ofTokens_eq_error_iff :
    ofTokens ts = .error fault ∧ fault.topic = topic ↔ Faulty ts topic fault := by
  constructor
  · rintro ⟨h, rfl⟩
    exact faulty_of_ofTokens h
  · intro h
    refine ⟨?_, h.topic_eq⟩
    cases hread : ofTokens ts with
    | ok parts => exact absurd (written_of_ofTokens hread).1.balanced h.not_balanced
    | error fault' => rw [(faulty_of_ofTokens hread).unique h]

end Segment

-- ---------------------------------------------------------------------------
-- Right-hand sides
-- ---------------------------------------------------------------------------

namespace Node

variable {ts : List Token} {topic : Topic} {fault : DefinitionFault}

/-- An alternative is empty, or has a stray brace. -/
inductive FaultyAlternative (ts : List Token) : Topic → DefinitionFault → Prop
  | empty (h : ts = []) : FaultyAlternative ts .malformedDefinition .emptyAlternative
  | braces {topic : Topic} {fault : DefinitionFault} (h : Segment.Faulty ts topic fault) :
    FaultyAlternative ts topic fault

/-- The first alternative with a fault has this one. -/
inductive Faulty (ts : List Token) (topic : Topic) (fault : DefinitionFault) : Prop
  | alternative {front back : List (List Token)} {alternative : List Token}
    (hpieces : pieces isBar ts = front ++ alternative :: back)
    (hfront : ∀ other ∈ front, ∀ topic fault, ¬ FaultyAlternative other topic fault)
    (h : FaultyAlternative alternative topic fault) : Faulty ts topic fault

theorem ofAlternative_eq_error_iff :
    ofAlternative ts = .error fault ∧ fault.topic = topic ↔ FaultyAlternative ts topic fault := by
  constructor
  · rintro ⟨h, rfl⟩
    rw [ofAlternative] at h
    split at h
    · rename_i hempty
      cases h
      exact .empty (by simpa using hempty)
    · exact .braces (Segment.faulty_of_ofTokens (exceptMap_eq_error.mp h))
  · rintro (rfl | h)
    · exact ⟨rfl, rfl⟩
    · obtain ⟨hread, htopic⟩ := Segment.ofTokens_eq_error_iff.mpr h
      have hne : ts ≠ [] := by
        rintro rfl
        rw [Segment.ofTokens] at hread
        cases hread
      rw [ofAlternative, if_neg (by simpa using hne)]
      exact ⟨exceptMap_eq_error.mpr hread, htopic⟩

theorem exists_ofAlternative_iff : (∃ node, ofAlternative ts = .ok node) ↔
    ∀ topic fault, ¬ FaultyAlternative ts topic fault := by
  rw [exceptExists_eq_ok_iff]
  simp [← ofAlternative_eq_error_iff]

theorem mapM_eq_error_iff_ofTokens :
    (pieces isBar ts).mapM ofAlternative = .error fault ↔ ofTokens ts = .error fault := by
  rw [ofTokens, exceptBind_eq_error]
  refine ⟨.inl, ?_⟩
  rintro (h | ⟨nodes, hnodes, h⟩)
  · exact h
  · cases nodes with
    | nil =>
      have hnil := List.forall₂_nil_right_iff.mp (mapM_eq_ok_iff.mp hnodes)
      exact absurd hnil (pieces_ne_nil isBar ts)
    | cons first others => cases h

theorem ofTokens_eq_error_iff :
    ofTokens ts = .error fault ∧ fault.topic = topic ↔ Faulty ts topic fault := by
  rw [← mapM_eq_error_iff_ofTokens, mapM_eq_error_iff]
  constructor
  · rintro ⟨⟨front, alternative, back, hpieces, hfront, h⟩, htopic⟩
    exact .alternative hpieces (fun _ hother => exists_ofAlternative_iff.mp (hfront _ hother))
      (ofAlternative_eq_error_iff.mp ⟨h, htopic⟩)
  · rintro ⟨hpieces, hfront, h⟩
    obtain ⟨h, htopic⟩ := ofAlternative_eq_error_iff.mpr h
    have hread := fun other hother => exists_ofAlternative_iff.mpr (hfront other hother)
    exact ⟨⟨_, _, _, hpieces, hread, h⟩, htopic⟩

theorem fault_of_ofTokens (h : ofTokens ts = .error fault) : fault = .emptyAlternative ∨
    fault = .strayClose ∨ fault = .unclosedGroup ∨ fault = .nestedGroup := by
  obtain ⟨-, -, h⟩ := ofTokens_eq_error_iff.mp ⟨h, rfl⟩
  generalize fault.topic = topic at h
  rcases h with - | (- | - | -) <;> simp

end Node

end BackusNaur

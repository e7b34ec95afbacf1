/-!
# Cutting a list at marked elements

A list with `n` marked elements has `n + 1` pieces; the marks themselves belong to none.
-/

namespace BackusNaur

variable {α : Type}

/-- The stretches of `xs` between the elements that `isCut` marks, empty ones included. -/
def pieces (isCut : α → Bool) : List α → List (List α)
  | [] => [[]]
  | x :: xs =>
    if isCut x then [] :: pieces isCut xs
    else match pieces isCut xs with
      | [] => [[x]]
      | piece :: others => (x :: piece) :: others

theorem pieces_ne_nil (isCut : α → Bool) (xs : List α) : pieces isCut xs ≠ [] := by
  cases xs with
  | nil => simp [pieces]
  | cons x xs =>
    simp only [pieces]
    split
    · simp
    · split <;> simp

variable {isCut : α → Bool}

theorem pieces_of_forall_not (h : ∀ x ∈ xs, isCut x = false) : pieces isCut xs = [xs] := by
  induction xs with
  | nil => rfl
  | cons x xs ih =>
    rw [pieces, ih fun y hy => h y (.tail _ hy), h x (.head _)]
    rfl

theorem not_isCut_of_mem_pieces : ∀ piece ∈ pieces isCut xs, ∀ x ∈ piece, isCut x = false := by
  induction xs with
  | nil => simp [pieces]
  | cons x xs ih =>
    cases hc : isCut x with
    | true => simpa [pieces, hc] using ih
    | false =>
      obtain ⟨piece, others, hp⟩ := List.exists_cons_of_ne_nil (pieces_ne_nil isCut xs)
      rw [hp] at ih
      obtain ⟨hpiece, hothers⟩ := List.forall_mem_cons.mp ih
      have hpieces : pieces isCut (x :: xs) = (x :: piece) :: others := by simp [pieces, hc, hp]
      rw [hpieces]
      exact List.forall_mem_cons.mpr ⟨List.forall_mem_cons.mpr ⟨hc, hpiece⟩, hothers⟩

theorem pieces_append_cons (h : isCut x = true) (xs ys : List α) :
    pieces isCut (xs ++ x :: ys) = pieces isCut xs ++ pieces isCut ys := by
  induction xs with
  | nil => simp [pieces, h]
  | cons y xs ih =>
    simp only [List.cons_append, pieces, ih]
    split
    · rfl
    · cases hp : pieces isCut xs with
      | nil => exact absurd hp (pieces_ne_nil isCut xs)
      | cons piece others => rfl

/-- Where two lists meet, the last piece of the one and the first of the other are one piece. -/
theorem pieces_append (hx : pieces isCut xs = front ++ [last])
    (hy : pieces isCut ys = first :: others) :
    pieces isCut (xs ++ ys) = front ++ (last ++ first) :: others := by
  induction xs generalizing front last with
  | nil =>
    obtain ⟨rfl, rfl⟩ : front = [] ∧ last = [] := by
      simpa [pieces, List.cons_eq_append_iff] using hx
    exact hy
  | cons x xs ih =>
    rw [List.cons_append, pieces]
    rw [pieces] at hx
    split at hx
    · rename_i hc
      rw [if_pos hc]
      rcases List.cons_eq_append_iff.mp hx with ⟨-, h⟩ | ⟨front, rfl, h⟩
      · exact absurd (List.cons.inj h).2.symm (pieces_ne_nil isCut xs)
      · rw [ih h]
        rfl
    · rename_i hc
      rw [if_neg hc]
      cases hp : pieces isCut xs with
      | nil => exact absurd hp (pieces_ne_nil isCut xs)
      | cons piece rest =>
        rw [hp] at hx
        rcases List.cons_eq_append_iff.mp hx with ⟨rfl, h⟩ | ⟨front, rfl, rfl⟩
        · obtain ⟨rfl, rfl⟩ := List.cons.inj h
          rw [@ih [] piece hp]
          rfl
        · rw [@ih (piece :: front) last hp]
          rfl

theorem prefix_of_pieces (h : pieces isCut xs = first :: others) : first <+: xs := by
  induction xs generalizing first others with
  | nil => exact (List.cons.inj h).1 ▸ List.prefix_rfl
  | cons x xs ih =>
    rw [pieces] at h
    split at h
    · exact (List.cons.inj h).1 ▸ List.nil_prefix
    · split at h <;> obtain ⟨rfl, rfl⟩ := List.cons.inj h
      · exact List.cons_prefix_cons.mpr ⟨rfl, List.nil_prefix⟩
      · exact List.cons_prefix_cons.mpr ⟨rfl, ih ‹_›⟩

/-- The last piece ends the list, and is all of it where it is the only one. -/
theorem eq_append_of_pieces (h : pieces isCut xs = front ++ [last]) :
    ∃ before, xs = before ++ last ∧ (front = [] → before = []) := by
  induction xs generalizing front last with
  | nil =>
    obtain ⟨rfl, rfl⟩ : front = [] ∧ last = [] := by
      simpa [pieces, List.cons_eq_append_iff] using h
    exact ⟨[], rfl, fun _ => rfl⟩
  | cons x xs ih =>
    cases hp : pieces isCut xs with
    | nil => exact absurd hp (pieces_ne_nil isCut xs)
    | cons piece rest =>
      rw [pieces, hp] at h
      split at h
      · rcases List.cons_eq_append_iff.mp h with ⟨-, hl⟩ | ⟨front, rfl, hl⟩
        · cases (List.cons.inj hl).2
        · obtain ⟨before, rfl, -⟩ := ih (hp.trans hl)
          exact ⟨x :: before, rfl, nofun⟩
      · rcases List.cons_eq_append_iff.mp h with ⟨rfl, h⟩ | ⟨front, rfl, rfl⟩
        · obtain ⟨rfl, rfl⟩ := List.cons.inj h
          obtain ⟨before, rfl, hb⟩ := @ih [] piece hp
          obtain rfl := hb rfl
          exact ⟨[], rfl, fun _ => rfl⟩
        · obtain ⟨before, rfl, -⟩ := @ih (piece :: front) last hp
          exact ⟨x :: before, rfl, nofun⟩

theorem length_pieces (isCut : α → Bool) (xs : List α) :
    (pieces isCut xs).length = (xs.countP isCut) + 1 := by
  induction xs with
  | nil => rfl
  | cons x xs ih =>
    simp only [pieces]
    split
    · simp_all
    · split <;> simp_all

theorem append_eq_append_cons {us vs front back : List α} {x : α}
    (h : us ++ vs = front ++ x :: back) :
    (∃ more, us = front ++ x :: more ∧ back = more ++ vs) ∨
      ∃ more, front = us ++ more ∧ vs = more ++ x :: back := by
  rcases List.append_eq_append_iff.mp h with hfront | ⟨more, hus, hback⟩
  · exact .inr hfront
  · cases more with
    | nil => exact .inr ⟨[], by simpa using hus.symm, hback.symm⟩
    | cons y more =>
      obtain ⟨rfl, rfl⟩ := List.cons.inj hback
      exact .inl ⟨more, hus, rfl⟩

end BackusNaur

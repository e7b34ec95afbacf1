import Mathlib.Data.List.Forall2

/-!
# Computations that can fail

When a computation made of others gives a result.
-/

namespace BackusNaur

theorem exceptBind_eq_ok {found : Except ε α} {next : α → Except ε β} :
    (found >>= next) = .ok answer ↔ ∃ a, found = .ok a ∧ next a = .ok answer := by
  cases found <;> simp [bind, Except.bind]

theorem exceptBind_eq_error {found : Except ε α} {next : α → Except ε β} :
    (found >>= next) = .error e ↔ found = .error e ∨ ∃ a, found = .ok a ∧ next a = .error e := by
  cases found <;> simp [bind, Except.bind]

theorem exceptExists_eq_ok_iff {found : Except ε α} :
    (∃ a, found = .ok a) ↔ ∀ e, found ≠ .error e := by
  cases found <;> simp

theorem exceptPure_eq_ok : (pure a : Except ε α) = .ok answer ↔ a = answer := by
  simp [pure, Except.pure]

theorem exceptPure_ne_error {a : α} : (pure a : Except ε α) ≠ .error e := nofun

theorem exceptMap_eq_ok {found : Except ε α} {f : α → β} :
    found.map f = .ok answer ↔ ∃ a, found = .ok a ∧ f a = answer := by
  cases found <;> simp [Except.map]

theorem exceptMap_eq_error {found : Except ε α} {f : α → β} :
    found.map f = .error e ↔ found = .error e := by
  cases found <;> simp [Except.map]

theorem exceptMapError_eq_error {found : Except ε α} {f : ε → ε'} :
    found.mapError f = .error e ↔ ∃ e', found = .error e' ∧ f e' = e := by
  cases found <;> simp [Except.mapError]

theorem exceptMapError_eq_ok {found : Except ε α} {f : ε → ε'} :
    found.mapError f = .ok answer ↔ found = .ok answer := by
  cases found <;> simp [Except.mapError]

theorem optionElim_eq_error {found : Option α} {usual : β} {f : α → Except ε β} :
    found.elim (.ok usual) f = .error e ↔ ∃ a, found = some a ∧ f a = .error e := by
  cases found <;> simp

theorem mapM_eq_ok_iff {f : α → Except ε β} :
    xs.mapM f = .ok ys ↔ List.Forall₂ (fun x y => f x = .ok y) xs ys := by
  induction xs generalizing ys with
  | nil =>
    rw [List.mapM_nil, exceptPure_eq_ok, List.forall₂_nil_left_iff, eq_comm]
  | cons x xs ih =>
    simp only [List.mapM_cons, exceptBind_eq_ok, exceptPure_eq_ok, List.forall₂_cons_left_iff, ih]
    grind

/-- A failure on a list is the failure on its first element that has one. -/
theorem mapM_eq_error_iff {f : α → Except ε β} {xs : List α} : xs.mapM f = .error e ↔
    ∃ before x after, xs = before ++ x :: after ∧ (∀ y ∈ before, ∃ z, f y = .ok z) ∧
      f x = .error e := by
  induction xs with
  | nil => exact iff_of_false nofun (by simp)
  | cons x xs ih =>
    simp only [List.mapM_cons, exceptBind_eq_error]
    constructor
    · rintro (h | ⟨z, hx, h | ⟨_, -, ⟨⟩⟩⟩)
      · exact ⟨[], x, xs, rfl, nofun, h⟩
      · obtain ⟨before, y, after, rfl, hbefore, hy⟩ := ih.mp h
        exact ⟨x :: before, y, after, rfl, List.forall_mem_cons.mpr ⟨⟨z, hx⟩, hbefore⟩, hy⟩
    · rintro ⟨before, y, after, h, hbefore, hy⟩
      rcases List.cons_eq_append_iff.mp h with ⟨rfl, h⟩ | ⟨before, rfl, rfl⟩
      · exact .inl ((List.cons.inj h).1 ▸ hy)
      · obtain ⟨⟨z, hx⟩, hbefore⟩ := List.forall_mem_cons.mp hbefore
        exact .inr ⟨z, hx, .inl (ih.mpr ⟨before, y, after, rfl, hbefore, hy⟩)⟩

theorem exists_of_mapM_eq_error {f : α → Except ε β} {xs : List α} (h : xs.mapM f = .error e) :
    ∃ x ∈ xs, f x = .error e := by
  obtain ⟨before, x, after, rfl, -, hx⟩ := mapM_eq_error_iff.mp h
  exact ⟨x, by simp, hx⟩

/-- A search fails on the first element that it cannot tell about, if it has found none before. -/
theorem findM?_eq_error_iff {p : α → Except ε Bool} {xs : List α} : xs.findM? p = .error e ↔
    ∃ before x after, xs = before ++ x :: after ∧ (∀ y ∈ before, p y = .ok false) ∧
      p x = .error e := by
  induction xs with
  | nil => exact iff_of_false nofun (by simp)
  | cons x xs ih =>
    simp only [List.findM?, exceptBind_eq_error]
    constructor
    · rintro (h | ⟨found, hx, h⟩)
      · exact ⟨[], x, xs, rfl, nofun, h⟩
      · cases found with
        | true => cases h
        | false =>
          obtain ⟨before, y, after, rfl, hbefore, hy⟩ := ih.mp h
          exact ⟨x :: before, y, after, rfl, List.forall_mem_cons.mpr ⟨hx, hbefore⟩, hy⟩
    · rintro ⟨before, y, after, h, hbefore, hy⟩
      rcases List.cons_eq_append_iff.mp h with ⟨rfl, h⟩ | ⟨before, rfl, rfl⟩
      · exact .inl ((List.cons.inj h).1 ▸ hy)
      · obtain ⟨hx, hbefore⟩ := List.forall_mem_cons.mp hbefore
        exact .inr ⟨false, hx, ih.mpr ⟨before, y, after, rfl, hbefore, hy⟩⟩

end BackusNaur

import BackusNaur.Proofs.Matching.Adequacy
import BackusNaur.Proofs.Matching.Chain
import BackusNaur.Proofs.Matching.Result

/-!
# Matching refines evaluation

`Matcher.run_refines_evaluation`: whether a match has a result, and which, is settled by the
derivations that are no deeper than the bound and fit the stack. Going on past the bound answers
nothing else. A stack that is too small for a derivation is told like a bound that is
(`Matcher.chain_run_eq_recursionLimit`), whatever the bound is.
-/

namespace BackusNaur

namespace Matcher

variable {m : Matcher} {stack : Nat} {start : String} {node : Node} {tokens : List String}
  {result : MatchResult}

/-- A derivation from the start of the input has this outcome, is no deeper than the bound and
needs no more frames than the stack has left: one for its own node and those below. -/
def Outcome (m : Matcher) (stack : Nat) (node : Node) (tokens : List String) (stop : Option Nat)
    (recorded : Set Span) : Prop :=
  ∃ extent : Extent, Evaluates m.table tokens (.node node) 0 stop recorded extent ∧
    extent.depth ≤ m.maxDepth ∧ extent.frames < stack

theorem run_of_find?_eq_none (hd : m.table.find? start = none) : m.run stack start tokens =
    .error (.unknownStart start (Text.sortedSet m.table.names)) := by
  simp [run, search, hd, Except.map]

theorem exists_search_eq_ok {stop : Option Nat} {recorded : Set Span}
    (hd : m.table.find? start = some node) (ho : m.Outcome stack node tokens stop recorded) :
    ∃ spans, m.search stack start tokens = .ok ⟨stop, spans⟩ ∧ spanSet spans = recorded := by
  obtain ⟨extent, he, hdepth, hframes⟩ := ho
  have hlevels : extent.depth < (m.maxDepth + 1).toNat := by omega
  obtain ⟨spans, hrun, hspans⟩ := he.finds_node hframes hlevels {}
  refine ⟨spans, ?_, by simpa using hspans⟩
  simp [search, hd, descend, hrun]

theorem search_eq_recursionLimit (hd : m.table.find? start = some node)
    (hn : ¬ ∃ stop recorded, m.Outcome stack node tokens stop recorded) :
    m.search stack start tokens = .error (.recursionLimit m.maxDepth) := by
  have hsettles : SettlesNode m.table tokens stack (m.maxDepth + 1).toNat node 0 :=
    settles_node m.closed _ _ node 0 fun _ => SymbolTable.isSome_find?_of_closed m.closed hd
  rcases hsettles with ⟨stop, s, d, he, hf, hdepth⟩ | hfails
  · exact absurd ⟨stop, s, d, he, by omega, hf⟩ hn
  · rcases hfails {} with hrun | ⟨stop, spans, hrun⟩ <;> simp [search, hd, descend, hrun]

theorem outcome_of_search_eq_ok {reach : Reach} (h : m.search stack start tokens = .ok reach) :
    ∃ node, m.table.find? start = some node ∧
      m.Outcome stack node tokens reach.stop (spanSet reach.spans) := by
  cases hd : m.table.find? start with
  | none => simp [search, hd] at h
  | some node =>
    by_cases ho : ∃ stop recorded, m.Outcome stack node tokens stop recorded
    · obtain ⟨stop, recorded, ho⟩ := ho
      obtain ⟨spans, hsearch, rfl⟩ := exists_search_eq_ok hd ho
      obtain rfl := Except.ok.inj (hsearch.symm.trans h)
      exact ⟨node, rfl, ho⟩
    · rw [search_eq_recursionLimit hd ho] at h
      cases h

theorem exists_run_eq_ok {stop : Option Nat} {recorded : Set Span}
    (hd : m.table.find? start = some node) (ho : m.Outcome stack node tokens stop recorded) :
    ∃ result, m.run stack start tokens = .ok result ∧ result.Shows tokens stop recorded := by
  obtain ⟨spans, hsearch, rfl⟩ := exists_search_eq_ok hd ho
  refine ⟨Reach.result tokens ⟨stop, spans⟩, ?_, MatchResult.shows_result tokens _⟩
  rw [run, hsearch]
  rfl

theorem run_eq_recursionLimit (hd : m.table.find? start = some node)
    (hn : ¬ ∃ stop recorded, m.Outcome stack node tokens stop recorded) :
    m.run stack start tokens = .error (.recursionLimit m.maxDepth) := by
  rw [run, search_eq_recursionLimit hd hn]
  rfl

theorem run_eq_ok_iff (hd : m.table.find? start = some node) :
    m.run stack start tokens = .ok result ↔ ∃ stop recorded,
      m.Outcome stack node tokens stop recorded ∧ result.Shows tokens stop recorded := by
  constructor
  · intro hrun
    by_cases ho : ∃ stop recorded, m.Outcome stack node tokens stop recorded
    · obtain ⟨stop, recorded, ho⟩ := ho
      obtain ⟨result', hrun', hshows⟩ := exists_run_eq_ok hd ho
      obtain rfl := Except.ok.inj (hrun.symm.trans hrun')
      exact ⟨stop, recorded, ho, hshows⟩
    · rw [run_eq_recursionLimit hd ho] at hrun
      cases hrun
  · rintro ⟨stop, recorded, ho, hshows⟩
    obtain ⟨result', hrun, hshows'⟩ := exists_run_eq_ok hd ho
    rw [hrun, hshows.unique hshows']

theorem outcome_of_run_eq_ok (h : m.run stack start tokens = .ok result) :
    ∃ node, m.table.find? start = some node ∧ ∃ stop recorded,
      m.Outcome stack node tokens stop recorded ∧ result.Shows tokens stop recorded := by
  cases hd : m.table.find? start with
  | none =>
    rw [run_of_find?_eq_none hd] at h
    cases h
  | some node => exact ⟨node, rfl, (run_eq_ok_iff hd).mp h⟩

def nested : Matcher where
  table := [("s", .sequence [.run [.literal "a"], .group [.reference "s"] .optional])]
  maxDepth := 4
  closed := by decide

theorem nested_run :
    nested.run 7 "s" ["a", "A"] = .ok ⟨true, 2, ["a", "A"], [("s", ["[ A ]"])]⟩ := by
  decide +kernel

end Matcher

end BackusNaur

import BackusNaur.Proofs.Matching.Bound
import BackusNaur.Proofs.Matching.LookAhead
import BackusNaur.Proofs.Matching.Refinement
import Mathlib.Data.Fintype.Pigeonhole
import Mathlib.Data.Nat.SuccPred
import Mathlib.Order.SuccPred.Relation
import Mathlib.Order.WellFounded

/-!
# Left recursion

A reference is eager if it is the first thing that a sequence looks for: then it is looked for at
the very position where the definition is, whatever the tokens are. Where eager references go on
forever, no derivation exists, since each has to be deeper than the next.

`Matcher.run_of_eager_chain`: a match of such a symbol is too deep. That the other operand of an
alternation matches does not save it, nor that a group may be left out.
-/

namespace BackusNaur

open Relation (ReflTransGen TransGen)

variable {table : SymbolTable} {start : String} {tokens : List String}

def Item.isEmptyLiteral : Item → Bool
  | literal text => text.isEmpty
  | reference _ => false

theorem Item.eq_of_isEmptyLiteral {item : Item} (h : item.isEmptyLiteral = true) :
    item = .literal "" := by
  cases item with
  | literal text => exact congrArg literal (by simpa [isEmptyLiteral] using h)
  | reference name => cases h

def Segment.firstItem? (parts : List Segment) : Option Item :=
  (parts.flatMap Segment.items).find? (!·.isEmptyLiteral)

/-- Some sequence of the definition of `owner` begins with a reference to `name`. -/
def SymbolTable.Eager (table : SymbolTable) (owner name : String) : Prop :=
  ∃ whole, table.find? owner = some whole ∧
    ∃ parts ∈ whole.sequences, Segment.firstItem? parts = some (.reference name)

-- ---------------------------------------------------------------------------
-- Derivations of eager references
-- ---------------------------------------------------------------------------

namespace Evaluates

variable {row : List Item} {parts : List Segment} {node : Node}

theorem stop_of_emptyLiterals (h : Evaluates table tokens (.items row) pos stop s d)
    (hrow : row.find? (!·.isEmptyLiteral) = none) : stop = some pos := by
  induction row with
  | nil => cases h; rfl
  | cons item rest ih =>
    cases item with
    | literal text =>
      simp [Item.isEmptyLiteral] at hrow ih
      cases h with
      | emptyLiteral _ hr => exact ih hr hrow.2
      | literal hne => exact absurd hrow.1 hne
      | literalFails hne => exact absurd hrow.1 hne
    | reference name => simp [Item.isEmptyLiteral] at hrow

theorem visits_of_items (h : Evaluates table tokens (.items row) pos stop s d)
    (hp : pos ≤ tokens.length)
    (hrow : row.find? (!·.isEmptyLiteral) = some (.reference name)) :
    ∃ d', d'.depth < d.depth ∧ Visits table tokens name pos d' := by
  induction row with
  | nil => simp at hrow
  | cons item rest ih =>
    cases item with
    | literal text =>
      by_cases he : text = ""
      · cases h with
        | emptyLiteral _ hr =>
          apply ih hr
          simpa [he, Item.isEmptyLiteral] using hrow
        | literal hne => exact absurd he hne
        | literalFails hne => exact absurd he hne
      · simp [he, Item.isEmptyLiteral] at hrow
    | reference other =>
      obtain rfl : other = name := by simpa [Item.isEmptyLiteral] using hrow
      cases h with
      | reference hd hn _ =>
        exact ⟨_, lt_max_of_lt_left (Nat.lt_add_of_pos_right Nat.two_pos), hp, _, _, _, hd, hn⟩
      | referenceFails hd hn =>
        exact ⟨_, Nat.lt_add_of_pos_right Nat.two_pos, hp, _, _, _, hd, hn⟩

theorem visits_of_segments (h : Evaluates table tokens (.segments parts) pos stop s d)
    (hp : pos ≤ tokens.length) (hparts : Segment.firstItem? parts = some (.reference name)) :
    ∃ d', d'.depth < d.depth ∧ Visits table tokens name pos d' := by
  induction parts generalizing stop s d with
  | nil => simp [Segment.firstItem?] at hparts
  | cons part rest ih =>
    simp only [Segment.firstItem?, List.flatMap_cons, List.find?_append,
      Option.or_eq_some_iff] at hparts
    -- Segments before the first item hold empty literals at most, so they end where they begin.
    cases h with
    | run hi hr =>
      rcases hparts with hhere | ⟨hnone, hrest⟩
      · obtain ⟨d', hlt, hv⟩ := hi.visits_of_items hp hhere
        exact ⟨d', lt_max_of_lt_left hlt, hv⟩
      · obtain rfl := Option.some.inj (hi.stop_of_emptyLiterals hnone)
        obtain ⟨d', hlt, hv⟩ := ih hr hrest
        exact ⟨d', lt_max_of_lt_right hlt, hv⟩
    | runFails hi =>
      rcases hparts with hhere | ⟨hnone, -⟩
      · exact hi.visits_of_items hp hhere
      · cases hi.stop_of_emptyLiterals hnone
    | group hi hr =>
      rcases hparts with hhere | ⟨hnone, hrest⟩
      · obtain ⟨d', hlt, hv⟩ := hi.visits_of_items hp hhere
        exact ⟨d', lt_max_of_lt_left hlt, hv⟩
      · obtain rfl := hi.stop_of_emptyLiterals hnone
        obtain ⟨d', hlt, hv⟩ := ih hr hrest
        exact ⟨d', lt_max_of_lt_right hlt, hv⟩

/-- Both operands of an alternation are evaluated, so every sequence of a node is. -/
theorem exists_of_mem_sequences (h : Evaluates table tokens (.node node) pos stop s d)
    (hparts : parts ∈ node.sequences) :
    ∃ stop' s' d', d'.depth ≤ d.depth ∧
      Evaluates table tokens (.segments parts) pos stop' s' d' := by
  induction node generalizing stop s d with
  | alternation left right ihl ihr =>
    cases h with
    | alternation hl hr =>
      rcases List.mem_append.mp hparts with hparts | hparts
      · obtain ⟨stop', s', d', hle, he⟩ := ihl hl hparts
        exact ⟨stop', s', d', Nat.le_succ_of_le (le_max_of_le_left hle), he⟩
      · obtain ⟨stop', s', d', hle, he⟩ := ihr hr hparts
        exact ⟨stop', s', d', Nat.le_succ_of_le (le_max_of_le_right hle), he⟩
  | sequence segments =>
    obtain rfl := List.mem_singleton.mp hparts
    cases h with
    | sequence he => exact ⟨_, _, _, le_rfl, he⟩

end Evaluates

theorem SymbolTable.Eager.visits (h : table.Eager owner name)
    (hv : Visits table tokens owner pos d) :
    ∃ d', d'.depth < d.depth ∧ Visits table tokens name pos d' := by
  obtain ⟨whole, hd, parts, hparts, hfirst⟩ := h
  obtain ⟨hp, node, stop, s, hd', he⟩ := hv
  cases hd.symm.trans hd'
  obtain ⟨_, _, d', hle, hsegments⟩ := he.exists_of_mem_sequences hparts
  obtain ⟨e, hlt, hv⟩ := hsegments.visits_of_segments hp hfirst
  exact ⟨e, Nat.lt_of_lt_of_le hlt hle, hv⟩

-- ---------------------------------------------------------------------------
-- References that go on forever
-- ---------------------------------------------------------------------------

namespace SymbolTable

/-- Eager references lead from `start` to another symbol and from there to the next, without end. -/
def EagerChain (table : SymbolTable) (start : String) : Prop :=
  ∃ chain : Nat → String, chain 0 = start ∧ ∀ i, table.Eager (chain i) (chain (i + 1))

/-- Eager references lead from `start` to a symbol that they lead back to. -/
def EagerCycle (table : SymbolTable) (start : String) : Prop :=
  ∃ name, ReflTransGen table.Eager start name ∧ TransGen table.Eager name name

theorem EagerChain.cycle (h : table.EagerChain start) : table.EagerCycle start := by
  obtain ⟨chain, rfl, hchain⟩ := h
  have hmem : ∀ i, chain i ∈ table.names := by
    intro i
    obtain ⟨whole, hd, -⟩ := hchain i
    exact mem_names_iff.mpr ⟨whole, hd⟩
  -- There are only so many names, so one of them comes twice.
  obtain ⟨i, j, hlt, heq⟩ : ∃ i j, i < j ∧ chain i = chain j := by
    obtain ⟨i, j, hne, heq⟩ := Finite.exists_ne_map_eq_of_infinite
      fun i => (⟨chain i, List.mem_toFinset.mpr (hmem i)⟩ : table.names.toFinset)
    simp only [Subtype.mk.injEq] at heq
    rcases Nat.lt_or_gt_of_ne hne with hlt | hlt
    · exact ⟨i, j, hlt, heq⟩
    · exact ⟨j, i, hlt, heq.symm⟩
  have hpath : ReflTransGen (fun a b => table.Eager (chain a) (chain b)) 0 i :=
    reflTransGen_of_succ_of_le _ (fun k _ => hchain k) i.zero_le
  have hcycle : TransGen (fun a b => table.Eager (chain a) (chain b)) i j :=
    transGen_of_succ_of_lt _ (fun k _ => hchain k) hlt
  have hback : TransGen table.Eager (chain i) (chain j) := hcycle.lift chain fun _ _ he => he
  rw [← heq] at hback
  exact ⟨chain i, hpath.lift chain fun _ _ he => he, hback⟩

theorem EagerCycle.chain (h : table.EagerCycle start) : table.EagerChain start := by
  obtain ⟨name, hstart, hcycle⟩ := h
  have hacc : ¬ Acc (fun next owner => table.Eager owner next) start := by
    intro hacc
    induction hacc with
    | intro owner _ ih =>
      obtain ⟨next, he, hnext⟩ : ∃ next, table.Eager owner next ∧
          ReflTransGen table.Eager next name := by
        rcases hstart.cases_head with rfl | hstep
        · exact TransGen.head'_iff.mp hcycle
        · exact hstep
      exact ih next he hnext
  exact not_acc_iff_exists_descending_chain.mp hacc

theorem EagerChain.not_visits (h : table.EagerChain start) : ¬ Visits table tokens start pos d := by
  obtain ⟨chain, rfl, hchain⟩ := h
  generalize 0 = i
  induction hdepth : d.depth using Nat.strong_induction_on generalizing i d with
  | _ n ih =>
    subst hdepth
    intro hv
    obtain ⟨d', hlt, hv'⟩ := (hchain i).visits hv
    exact ih d'.depth hlt (i + 1) rfl hv'

end SymbolTable

-- ---------------------------------------------------------------------------
-- Matching
-- ---------------------------------------------------------------------------

/-- A match of a symbol from which eager references go on forever is too deep, for all tokens, every
bound and every stack. References go on forever exactly if they come to a cycle. -/
theorem Matcher.run_of_eager_chain (m : Matcher) (start : String) :
    (m.table.EagerChain start ↔ m.table.EagerCycle start) ∧
      (m.table.EagerChain start →
        ∀ stack tokens, m.run stack start tokens = .error (.recursionLimit m.maxDepth)) := by
  refine ⟨⟨fun h => h.cycle, fun h => h.chain⟩, fun h stack tokens => ?_⟩
  obtain ⟨chain, rfl, hchain⟩ := id h
  obtain ⟨node, hd, -⟩ := hchain 0
  apply run_eq_recursionLimit hd
  rintro ⟨stop, recorded, d, he, -⟩
  exact h.not_visits ⟨tokens.length.zero_le, node, stop, recorded, hd, he⟩

namespace Matcher

def circular : Matcher where
  table := [
    ("a", .alternation (.sequence [.run [.literal "x"]]) (.sequence [.run [.reference "b"]])),
    ("b", .sequence [.run [.literal ""], .group [.reference "a", .literal "y"] .zeroOrMore])]
  maxDepth := 1000
  closed := by decide

theorem circular_run : circular.run 1000 "a" ["x"] = .error (.recursionLimit 1000) := by
  have hab : circular.table.Eager "a" "b" := ⟨_, rfl, _, .tail _ (.head _), rfl⟩
  have hba : circular.table.Eager "b" "a" := ⟨_, rfl, _, .head _, rfl⟩
  have hcycle : circular.table.EagerCycle "a" := ⟨"a", .refl, .tail (.single hab) hba⟩
  obtain ⟨hiff, hrun⟩ := run_of_eager_chain circular "a"
  exact hrun (hiff.mpr hcycle) 1000 ["x"]

end Matcher

end BackusNaur

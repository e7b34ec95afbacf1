import BackusNaur.Proofs.Matching.Transfer

/-!
# The order and grouping of alternatives

An alternation tries all the sequences at its leaves from the same position, goes on from the
farthest end and keeps what each of them recorded. So nothing that a match finds depends on how the
leaves are ordered or grouped. Grouping does change how deep the leaves lie, and with it whether a
bound is met; exchanging the operands of alternations does not change even that.

`Matcher.run_eq_of_same_alternatives`: both statements, for tables that differ like this in any of
their definitions.
-/

namespace BackusNaur

variable {table other : SymbolTable} {tokens : List String} {node node' : Node}

namespace Reach

theorem farther_none (i : Option Nat) : farther i none = i := by cases i <;> rfl

theorem farther_comm (i j : Option Nat) : farther i j = farther j i := by
  cases i <;> cases j <;> simp [farther, Nat.max_comm]

theorem farther_assoc (i j k : Option Nat) :
    farther (farther i j) k = farther i (farther j k) := by
  cases i <;> cases j <;> cases k <;> simp [farther, Nat.max_assoc]

theorem farther_left_comm (i j k : Option Nat) :
    farther i (farther j k) = farther j (farther i k) := by
  rw [← farther_assoc, farther_comm i j, farther_assoc]

end Reach

-- ---------------------------------------------------------------------------
-- The sequences of a node
-- ---------------------------------------------------------------------------

/-- All of these sequences evaluate at `pos`, the farthest to `stop`, and record `s` together. -/
inductive EvaluatesEach (table : SymbolTable) (tokens : List String) (pos : Nat) :
    List (List Segment) → Option Nat → Set Span → Prop
  | nil : EvaluatesEach table tokens pos [] none ∅
  | cons : Evaluates table tokens (.segments parts) pos i s d →
      EvaluatesEach table tokens pos rest j t →
      EvaluatesEach table tokens pos (parts :: rest) (Reach.farther i j) (s ∪ t)

namespace EvaluatesEach

variable {xs ys : List (List Segment)}

theorem append (hx : EvaluatesEach table tokens pos xs i s)
    (hy : EvaluatesEach table tokens pos ys j t) :
    EvaluatesEach table tokens pos (xs ++ ys) (Reach.farther i j) (s ∪ t) := by
  induction hx with
  | nil => simpa [Reach.farther] using hy
  | cons hparts _ ih =>
    rw [Reach.farther_assoc, Set.union_assoc]
    exact .cons hparts ih

theorem exists_of_append (h : EvaluatesEach table tokens pos (xs ++ ys) stop s) :
    ∃ i j t u, EvaluatesEach table tokens pos xs i t ∧ EvaluatesEach table tokens pos ys j u ∧
      stop = Reach.farther i j ∧ s = t ∪ u := by
  induction xs generalizing stop s with
  | nil => exact ⟨none, stop, ∅, s, .nil, h, rfl, by simp⟩
  | cons parts xs ih =>
    cases h with
    | cons hparts hrest =>
      obtain ⟨i, j, t, u, hx, hy, rfl, rfl⟩ := ih hrest
      refine ⟨_, j, _, u, .cons hparts hx, hy, ?_, ?_⟩
      · rw [Reach.farther_assoc]
      · rw [Set.union_assoc]

theorem perm (h : EvaluatesEach table tokens pos xs stop s) (hperm : xs.Perm ys) :
    EvaluatesEach table tokens pos ys stop s := by
  induction hperm generalizing stop s with
  | nil => exact h
  | cons _ _ ih =>
    cases h with
    | cons hparts hrest => exact .cons hparts (ih hrest)
  | swap =>
    cases h with
    | cons hfirst hrest =>
      cases hrest with
      | cons hsecond hrest =>
        rw [Reach.farther_left_comm, Set.union_left_comm]
        exact .cons hsecond (.cons hfirst hrest)
  | trans _ _ ihx ihy => exact ihy (ihx h)

end EvaluatesEach

theorem Evaluates.each (h : Evaluates table tokens (.node node) pos stop s d) :
    EvaluatesEach table tokens pos node.sequences stop s := by
  induction node generalizing stop s d with
  | alternation left right ihl ihr =>
    cases h with
    | alternation hl hr => exact (ihl hl).append (ihr hr)
  | sequence parts =>
    cases h with
    | sequence h =>
      have heach := EvaluatesEach.cons h .nil
      rwa [Reach.farther_none, Set.union_empty] at heach

theorem EvaluatesEach.evaluates (h : EvaluatesEach table tokens pos node.sequences stop s) :
    ∃ d, Evaluates table tokens (.node node) pos stop s d := by
  induction node generalizing stop s with
  | alternation left right ihl ihr =>
    obtain ⟨i, j, t, u, hl, hr, rfl, rfl⟩ := h.exists_of_append
    obtain ⟨d, hl⟩ := ihl hl
    obtain ⟨e, hr⟩ := ihr hr
    exact ⟨_, .alternation hl hr⟩
  | sequence parts =>
    cases h with
    | cons hparts hrest =>
      cases hrest
      rw [Reach.farther_none, Set.union_empty]
      exact ⟨_, .sequence hparts⟩

-- ---------------------------------------------------------------------------
-- Nodes with the same alternatives
-- ---------------------------------------------------------------------------

namespace Node

/-- The nodes have the same sequences at the leaves of their alternations, in any order and
grouping. -/
def Regrouped (node node' : Node) : Prop := node.sequences.Perm node'.sequences

/-- Some alternations have their operands exchanged. -/
inductive Swapped : Node → Node → Prop
  | sequence (parts : List Segment) : Swapped (.sequence parts) (.sequence parts)
  | keep : Swapped left left' → Swapped right right' →
      Swapped (.alternation left right) (.alternation left' right')
  | swap : Swapped left left' → Swapped right right' →
      Swapped (.alternation left right) (.alternation right' left')

theorem Swapped.symm (h : node.Swapped node') : node'.Swapped node := by
  induction h with
  | sequence parts => exact .sequence parts
  | keep _ _ ihl ihr => exact .keep ihl ihr
  | swap _ _ ihl ihr => exact .swap ihr ihl

theorem Regrouped.refines (h : node.Regrouped node') :
    node.Refines table tokens (fun _ _ => True) node' := by
  intro pos stop s d he
  obtain ⟨d', he'⟩ := (he.each.perm h).evaluates
  exact ⟨d', trivial, he'⟩

theorem Swapped.evaluates (h : node.Swapped node')
    (he : Evaluates table tokens (.node node) pos stop s d) :
    Evaluates table tokens (.node node') pos stop s d := by
  induction h generalizing stop s d with
  | sequence => exact he
  | keep _ _ ihl ihr =>
    cases he with
    | alternation hl hr => exact .alternation (ihl hl) (ihr hr)
  | swap _ _ ihl ihr =>
    cases he with
    | alternation hl hr =>
      rw [Reach.farther_comm, Set.union_comm, Extent.max_comm]
      exact .alternation (ihr hr) (ihl hl)

theorem Swapped.refines (h : node.Swapped node') : node.Refines table tokens Eq node' :=
  fun _ _ _ d he => ⟨d, rfl, h.evaluates he⟩

end Node

-- ---------------------------------------------------------------------------
-- Tables with the same alternatives
-- ---------------------------------------------------------------------------

/-- The tables define the same symbols, by nodes that are related. -/
def SymbolTable.Corresponds (R : Node → Node → Prop) (table other : SymbolTable) : Prop :=
  ∀ name, Option.Rel R (table.find? name) (other.find? name)

namespace SymbolTable

variable {R : Node → Node → Prop} {near : Extent → Extent → Prop}

theorem Corresponds.of_forall₂
    (h : List.Forall₂ (fun entry entry' => entry.1 = entry'.1 ∧ R entry.2 entry'.2) table other) :
    Corresponds R table other := by
  intro name
  induction h with
  | nil => exact .none
  | @cons entry entry' _ _ hentry _ ih =>
    obtain ⟨owner, node⟩ := entry
    obtain ⟨owner', node'⟩ := entry'
    obtain ⟨rfl, hnode⟩ : owner = owner' ∧ R node node' := hentry
    simp only [find?, List.lookup_cons]
    split
    · exact .some hnode
    · exact ih

theorem Corresponds.symm (hR : ∀ {node node'}, R node node' → R node' node)
    (h : Corresponds R table other) : Corresponds R other table := by
  intro name
  generalize ha : table.find? name = a
  generalize hb : other.find? name = b
  cases ha ▸ hb ▸ h name with
  | none => exact .none
  | some hnode => exact .some (hR hnode)

theorem Corresponds.exists_find? (h : Corresponds R table other)
    (hd : table.find? name = some node) :
    ∃ node', other.find? name = some node' ∧ R node node' := by
  have hrel := hd ▸ h name
  generalize hb : other.find? name = b at hrel
  cases hrel with
  | some hnode => exact ⟨_, rfl, hnode⟩

/-- Every outcome in the one table is one in the other. -/
theorem Corresponds.transfer (h : Corresponds R table other) (hnear : ExtentRelation near)
    (hR : ∀ {node node'}, R node node' → node.Refines other tokens near node')
    (hd : table.find? name = some node) (hd' : other.find? name = some node')
    (he : Evaluates table tokens (.node node) pos stop s d) :
    ∃ d', near d d' ∧ Evaluates other tokens (.node node') pos stop s d' := by
  have hcarries : table.CarriesOverOn Set.univ other tokens near Set.univ := by
    intro name _ node hd
    obtain ⟨node', hd', hnode⟩ := h.exists_find? hd
    exact ⟨node', hd', (hR hnode).on⟩
  obtain ⟨s', d', hs, hnear, he'⟩ := hcarries.transfer hnear hd hd' he
  rw [spansOf_univ, spansOf_univ] at hs
  exact ⟨d', hnear, hs ▸ he'⟩

theorem Corresponds.sortedSet_names (h : Corresponds R table other) :
    Text.sortedSet table.names = Text.sortedSet other.names := by
  refine (Text.pairwise_sortedSet _).eq_of_mem_iff (Text.pairwise_sortedSet _) fun name => ?_
  have hrel := h name
  simp only [Text.mem_sortedSet, mem_names_iff]
  generalize table.find? name = a at hrel
  generalize other.find? name = b at hrel
  cases hrel <;> simp

end SymbolTable

-- ---------------------------------------------------------------------------
-- Matching
-- ---------------------------------------------------------------------------

namespace Matcher

open Node

variable {m m' : Matcher} {stack stack' : Nat} {start : String}

theorem result_eq_of_regrouped (h : m.table.Corresponds Regrouped m'.table)
    (hrun : m.run stack start tokens = .ok result)
    (hrun' : m'.run stack' start tokens = .ok result') :
    result = result' := by
  obtain ⟨node, hd, stop, s, ⟨d, he, -⟩, hshows⟩ := outcome_of_run_eq_ok hrun
  obtain ⟨node', hd', stop', s', ⟨d', he', -⟩, hshows'⟩ := outcome_of_run_eq_ok hrun'
  obtain ⟨_, -, hmoved⟩ := h.transfer .any Regrouped.refines hd hd' he
  obtain ⟨rfl, rfl, -⟩ := hmoved.deterministic he'
  exact hshows.unique hshows'

/-- A match has the same answer in two tables with the same bound if definitions of a symbol have
the same outcomes, as deep in the one table as in the other. -/
theorem run_eq_of_corresponds {R : Node → Node → Prop}
    (hsymm : ∀ {node node'}, R node node' → R node' node)
    (hR : ∀ {table node node'}, R node node' → node.Refines table tokens Eq node')
    (h : m.table.Corresponds R m'.table) (hdepth : m.maxDepth = m'.maxDepth) :
    m.run stack start tokens = m'.run stack start tokens := by
  cases hd : m.table.find? start with
  | none =>
    have hd' : m'.table.find? start = none := by
      have hrel := hd ▸ h start
      generalize m'.table.find? start = found at hrel
      cases hrel
      rfl
    rw [run_of_find?_eq_none hd, run_of_find?_eq_none hd', h.sortedSet_names]
  | some node =>
    obtain ⟨node', hd', -⟩ := h.exists_find? hd
    refine run_eq_of_outcome_iff hd hd' hdepth fun stop s => ?_
    constructor
    · rintro ⟨d, he, hle, hlt⟩
      obtain ⟨_, rfl, he'⟩ := h.transfer .eq hR hd hd' he
      exact ⟨d, he', hdepth ▸ hle, hlt⟩
    · rintro ⟨d, he, hle, hlt⟩
      obtain ⟨_, rfl, he'⟩ := (h.symm hsymm).transfer .eq hR hd' hd he
      exact ⟨d, he', hdepth ▸ hle, hlt⟩

theorem run_eq_of_swapped (h : m.table.Corresponds Swapped m'.table)
    (hdepth : m.maxDepth = m'.maxDepth) :
    m.run stack start tokens = m'.run stack start tokens :=
  run_eq_of_corresponds Swapped.symm Swapped.refines h hdepth

/-- Two tables whose definitions have the same sequences at the leaves of their alternations give
the same result wherever both give one, under any two bounds and on any two stacks. If only operands
are exchanged and the bound and the stack are the same, a match has the same answer altogether, so
that it is too deep in the one table exactly if it is in the other. -/
theorem run_eq_of_same_alternatives (m m' : Matcher) (start : String) (tokens : List String) :
    (m.table.Corresponds Regrouped m'.table → ∀ stack stack' result result',
      m.run stack start tokens = .ok result → m'.run stack' start tokens = .ok result' →
      result = result') ∧
    (m.table.Corresponds Swapped m'.table → m.maxDepth = m'.maxDepth →
      ∀ stack, m.run stack start tokens = m'.run stack start tokens) :=
  ⟨fun h _ _ _ _ => result_eq_of_regrouped h, fun h hdepth _ => run_eq_of_swapped h hdepth⟩

def letter : Node := .sequence [.run [.literal "x"]]

def letters : Node := .sequence [.run [.literal "x", .reference "tail"]]

def digit : Node := .sequence [.run [.literal "1"]]

def pairTable (word : Node) : SymbolTable := [
  ("pair", .sequence [.run [.reference "word", .reference "word"]]),
  ("word", word),
  ("tail", .sequence [.run [.literal "y"]])]

def grouped (maxDepth : Int) : Matcher where
  table := pairTable (.alternation (.alternation letter letters) digit)
  maxDepth := maxDepth
  closed := by decide

def regrouped (maxDepth : Int) : Matcher where
  table := pairTable (.alternation letters (.alternation digit letter))
  maxDepth := maxDepth
  closed := by decide

def mirrored (maxDepth : Int) : Matcher where
  table := pairTable (.alternation digit (.alternation letters letter))
  maxDepth := maxDepth
  closed := by decide

theorem grouped_run_eq : (∃ result, (grouped 6).run 30 "pair" ["x", "y", "1"] = .ok result ∧
      (regrouped 5).run 20 "pair" ["x", "y", "1"] = .ok result) ∧
    (mirrored 5).run 30 "pair" ["x", "y", "1"] = .error (.recursionLimit 5) := by
  have hregrouped : (grouped 6).table.Corresponds Regrouped (regrouped 5).table :=
    .of_forall₂ (.cons ⟨rfl, .refl _⟩ (.cons
      ⟨rfl, (List.perm_append_singleton _ [_, _]).symm⟩ (.cons ⟨rfl, .refl _⟩ .nil)))
  have hswapped : (grouped 5).table.Corresponds Swapped (mirrored 5).table :=
    .of_forall₂ (.cons ⟨rfl, .sequence _⟩ (.cons
      ⟨rfl, .swap (.swap (.sequence _) (.sequence _)) (.sequence _)⟩
      (.cons ⟨rfl, .sequence _⟩ .nil)))
  obtain ⟨result, hrun⟩ : ∃ result, (grouped 6).run 30 "pair" ["x", "y", "1"] = .ok result :=
    ⟨_, rfl⟩
  obtain ⟨result', hrun'⟩ : ∃ result, (regrouped 5).run 20 "pair" ["x", "y", "1"] = .ok result :=
    ⟨_, rfl⟩
  have hdeep : (grouped 5).run 30 "pair" ["x", "y", "1"] = .error (.recursionLimit 5) := rfl
  constructor
  · obtain rfl := (run_eq_of_same_alternatives (grouped 6) (regrouped 5) "pair"
      ["x", "y", "1"]).1 hregrouped 30 20 result result' hrun hrun'
    exact ⟨result, hrun, hrun'⟩
  · rw [← hdeep]
    exact ((run_eq_of_same_alternatives (grouped 5) (mirrored 5) "pair"
      ["x", "y", "1"]).2 hswapped rfl 30).symm

end Matcher

end BackusNaur

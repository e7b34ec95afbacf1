import BackusNaur.Matcher
import Mathlib.Data.Set.Insert

/-!
# Evaluation without a bound

The rules of greedy matching as a relation, with no bound on depth and no stack in them. A
derivation tells where a phrase ends, which spans were recorded on the way, and how far the deepest
node lies below the node that the phrase belongs to. A phrase that keeps coming back to itself has
no derivation.

`Evaluates.deterministic`: a phrase at a position has at most one outcome, its extent included.
-/

namespace BackusNaur

/-- How far a derivation goes down: in levels of depth and in frames of the stack. -/
structure Extent where
  depth : Nat
  frames : Nat
deriving DecidableEq, Repr

namespace Extent

instance : Zero Extent := ⟨⟨0, 0⟩⟩

instance : Max Extent := ⟨fun d e => ⟨max d.depth e.depth, max d.frames e.frames⟩⟩

@[simp] theorem max_depth (d e : Extent) : (max d e).depth = max d.depth e.depth := rfl

@[simp] theorem max_frames (d e : Extent) : (max d e).frames = max d.frames e.frames := rfl

@[simp] theorem max_zero (d : Extent) : max d 0 = d :=
  congrArg₂ mk (Nat.max_zero _) (Nat.max_zero _)

@[simp] theorem zero_max (d : Extent) : max 0 d = d :=
  congrArg₂ mk (Nat.zero_max _) (Nat.zero_max _)

theorem max_comm (d e : Extent) : max d e = max e d :=
  congrArg₂ mk (Nat.max_comm ..) (Nat.max_comm ..)

theorem max_assoc (c d e : Extent) : max (max c d) e = max c (max d e) :=
  congrArg₂ mk (Nat.max_assoc ..) (Nat.max_assoc ..)

def operand (d : Extent) : Extent := ⟨d.depth + 1, d.frames + 1⟩

/-- The extent of a reference to a definition that has this extent: between the two lie the match
of a segment, which is one level deeper, and the match of its items. -/
def reference (d : Extent) : Extent := ⟨d.depth + 2, d.frames + 3⟩

end Extent

/-- The two ways to measure an extent. -/
inductive Gauge where
  | depth
  | frames
deriving DecidableEq, Repr

namespace Gauge

def of : Gauge → Extent → Nat
  | depth, d => d.depth
  | frames, d => d.frames

def perReference : Gauge → Nat
  | depth => 2
  | frames => 3

variable (g : Gauge) (d e : Extent)

@[simp] theorem of_zero : g.of 0 = 0 := by cases g <;> rfl

@[simp] theorem of_max : g.of (max d e) = max (g.of d) (g.of e) := by cases g <;> rfl

@[simp] theorem of_operand : g.of d.operand = g.of d + 1 := by cases g <;> rfl

@[simp] theorem of_reference : g.of d.reference = g.of d + g.perReference := by cases g <;> rfl

theorem perReference_pos : 0 < g.perReference := by cases g <;> decide

end Gauge

/-- What can be looked for at a position: a node, the segments of a sequence that are left, or the
items of a segment that are left. -/
inductive Phrase where
  | node (node : Node)
  | segments (segments : List Segment)
  | items (items : List Item)

def Phrase.references : Phrase → List String
  | .node top => top.references
  | .segments parts => parts.flatMap fun part => part.items.filterMap Item.reference?
  | .items row => row.filterMap Item.reference?

namespace Phrase

@[simp] theorem references_alternation (left right : Node) :
    references (.node (.alternation left right)) =
      references (.node left) ++ references (.node right) := rfl

@[simp] theorem references_sequence (parts : List Segment) :
    references (.node (.sequence parts)) = references (.segments parts) := rfl

@[simp] theorem references_segments_cons (part : Segment) (rest : List Segment) :
    references (.segments (part :: rest)) =
      references (.items part.items) ++ references (.segments rest) := rfl

@[simp] theorem references_literal (text : String) (rest : List Item) :
    references (.items (.literal text :: rest)) = references (.items rest) := rfl

@[simp] theorem references_reference (name : String) (rest : List Item) :
    references (.items (.reference name :: rest)) = name :: references (.items rest) := rfl

end Phrase

/-- `Evaluates table tokens phrase pos stop recorded extent`: looked for at `pos`, the phrase ends
at `stop`, or does not match where that is `none`. -/
inductive Evaluates (table : SymbolTable) (tokens : List String) :
    Phrase → Nat → Option Nat → Set Span → Extent → Prop
  | alternation : Evaluates table tokens (.node left) pos i s d →
      Evaluates table tokens (.node right) pos j t e →
      Evaluates table tokens (.node (.alternation left right)) pos (Reach.farther i j) (s ∪ t)
        (max d e).operand
  | sequence : Evaluates table tokens (.segments parts) pos stop s d →
      Evaluates table tokens (.node (.sequence parts)) pos stop s d
  | noSegments : Evaluates table tokens (.segments []) pos (some pos) ∅ 0
  | run : Evaluates table tokens (.items items) pos (some mid) s d →
      Evaluates table tokens (.segments rest) mid stop t e →
      Evaluates table tokens (.segments (.run items :: rest)) pos stop (s ∪ t) (max d e)
  | runFails : Evaluates table tokens (.items items) pos none s d →
      Evaluates table tokens (.segments (.run items :: rest)) pos none s d
  /-- Items that do not match leave the group out; its mark has no part in this. -/
  | group : Evaluates table tokens (.items items) pos reached s d →
      Evaluates table tokens (.segments rest) (reached.getD pos) stop t e →
      Evaluates table tokens (.segments (.group items mark :: rest)) pos stop (s ∪ t) (max d e)
  | noItems : Evaluates table tokens (.items []) pos (some pos) ∅ 0
  | emptyLiteral : text = "" → Evaluates table tokens (.items rest) pos stop s d →
      Evaluates table tokens (.items (.literal text :: rest)) pos stop s d
  | literal : text ≠ "" → tokens[pos]?.map Text.lower = some (Text.lower text) →
      Evaluates table tokens (.items rest) (pos + 1) stop s d →
      Evaluates table tokens (.items (.literal text :: rest)) pos stop s d
  | literalFails : text ≠ "" → tokens[pos]?.map Text.lower ≠ some (Text.lower text) →
      Evaluates table tokens (.items (.literal text :: rest)) pos none ∅ 0
  | reference : table.find? name = some node →
      Evaluates table tokens (.node node) pos (some mid) s d →
      Evaluates table tokens (.items rest) mid stop t e →
      Evaluates table tokens (.items (.reference name :: rest)) pos stop
        (s ∪ insert ⟨name, pos, mid⟩ t) (max d.reference e)
  | referenceFails : table.find? name = some node →
      Evaluates table tokens (.node node) pos none s d →
      Evaluates table tokens (.items (.reference name :: rest)) pos none s d.reference

def spanSet (spans : List Span) : Set Span := {span | span ∈ spans}

@[simp] theorem mem_spanSet : span ∈ spanSet spans ↔ span ∈ spans := .rfl

@[simp] theorem spanSet_nil : spanSet [] = ∅ := by ext; simp

@[simp] theorem spanSet_cons : spanSet (span :: spans) = insert span (spanSet spans) := by
  ext; simp

variable {table : SymbolTable} {tokens : List String} {phrase : Phrase}

theorem lt_length_of_lower_eq (h : tokens[pos]?.map Text.lower = some c) : pos < tokens.length := by
  obtain ⟨token, ht, -⟩ := Option.map_eq_some_iff.mp h
  exact (List.getElem?_eq_some_iff.mp ht).1

namespace Evaluates

theorem deterministic (h : Evaluates table tokens phrase pos stop s d)
    (h' : Evaluates table tokens phrase pos stop' s' d') : stop = stop' ∧ s = s' ∧ d = d' := by
  induction h generalizing stop' s' d' with
  | alternation _ _ ihl ihr =>
    cases h' with
    | alternation hl hr =>
      obtain ⟨rfl, rfl, rfl⟩ := ihl hl
      obtain ⟨rfl, rfl, rfl⟩ := ihr hr
      exact ⟨rfl, rfl, rfl⟩
  | sequence _ ih =>
    cases h' with
    | sequence h => exact ih h
  | noSegments => cases h'; exact ⟨rfl, rfl, rfl⟩
  -- Where two rules are about the same phrase, one has a part of it match that does not match in
  -- the other, and the induction hypothesis is that there is one outcome for the part.
  | run _ _ ihi ihr =>
    cases h' with
    | run hi hr =>
      obtain ⟨⟨⟩, rfl, rfl⟩ := ihi hi
      obtain ⟨rfl, rfl, rfl⟩ := ihr hr
      exact ⟨rfl, rfl, rfl⟩
    | runFails hi => cases (ihi hi).1
  | runFails _ ih =>
    cases h' with
    | run hi _ => cases (ih hi).1
    | runFails hi => exact ih hi
  | group _ _ ihi ihr =>
    cases h' with
    | group hi hr =>
      obtain ⟨rfl, rfl, rfl⟩ := ihi hi
      obtain ⟨rfl, rfl, rfl⟩ := ihr hr
      exact ⟨rfl, rfl, rfl⟩
  | noItems => cases h'; exact ⟨rfl, rfl, rfl⟩
  | emptyLiteral he _ ih =>
    cases h' with
    | emptyLiteral _ h => exact ih h
    | literal hn => exact absurd he hn
    | literalFails hn => exact absurd he hn
  | literal hn hm _ ih =>
    cases h' with
    | emptyLiteral he => exact absurd he hn
    | literal _ _ h => exact ih h
    | literalFails _ hf => exact absurd hm hf
  | literalFails hn hf =>
    cases h' with
    | emptyLiteral he => exact absurd he hn
    | literal _ hm => exact absurd hm hf
    | literalFails => exact ⟨rfl, rfl, rfl⟩
  | reference hd _ _ ihn ihr =>
    cases h' with
    | reference hd' hn hr =>
      cases hd.symm.trans hd'
      obtain ⟨⟨⟩, rfl, rfl⟩ := ihn hn
      obtain ⟨rfl, rfl, rfl⟩ := ihr hr
      exact ⟨rfl, rfl, rfl⟩
    | referenceFails hd' hn =>
      cases hd.symm.trans hd'
      cases (ihn hn).1
  | referenceFails hd _ ih =>
    cases h' with
    | reference hd' hn _ =>
      cases hd.symm.trans hd'
      cases (ih hn).1
    | referenceFails hd' hn =>
      cases hd.symm.trans hd'
      obtain ⟨-, rfl, rfl⟩ := ih hn
      exact ⟨rfl, rfl, rfl⟩

theorem le_stop (h : Evaluates table tokens phrase pos stop s d) :
    ∀ hi, stop = some hi → pos ≤ hi := by
  induction h with
  | @alternation _ _ i _ _ _ j _ _ _ _ ihl ihr =>
    intro hi h
    rcases Reach.farther_eq i j with hf | hf <;> rw [hf] at h
    · exact ihl hi h
    · exact ihr hi h
  | sequence _ ih | emptyLiteral _ _ ih => exact ih
  | noSegments | noItems =>
    rintro hi ⟨⟩
    exact Nat.le_refl _
  | run _ _ ihi ihr | reference _ _ _ ihi ihr =>
    exact fun hi h => Nat.le_trans (ihi _ rfl) (ihr hi h)
  | @group _ _ reached _ _ _ _ _ _ _ _ _ ihi ihr =>
    cases reached with
    | none => exact ihr
    | some mid => exact fun hi h => Nat.le_trans (ihi mid rfl) (ihr hi h)
  | literal _ _ _ ih => exact fun hi h => Nat.le_of_succ_le (ih hi h)
  | runFails | literalFails | referenceFails => intro hi h; cases h

theorem stop_le_length (h : Evaluates table tokens phrase pos stop s d)
    (hp : pos ≤ tokens.length) : ∀ hi, stop = some hi → hi ≤ tokens.length := by
  induction h with
  | @alternation _ _ i _ _ _ j _ _ _ _ ihl ihr =>
    intro hi h
    rcases Reach.farther_eq i j with hf | hf <;> rw [hf] at h
    · exact ihl hp hi h
    · exact ihr hp hi h
  | sequence _ ih | emptyLiteral _ _ ih => exact ih hp
  | noSegments | noItems =>
    rintro hi ⟨⟩
    exact hp
  | run _ _ ihi ihr | reference _ _ _ ihi ihr => exact ihr (ihi hp _ rfl)
  | @group _ _ reached _ _ _ _ _ _ _ _ _ ihi ihr =>
    cases reached with
    | none => exact ihr hp
    | some mid => exact ihr (ihi hp mid rfl)
  | literal _ hm _ ih => exact ih (lt_length_of_lower_eq hm)
  | runFails | literalFails | referenceFails => intro hi h; cases h

/-- A phrase ends at or after its start and within the input. -/
theorem stop_bounds (h : Evaluates table tokens phrase pos stop s d) (hp : pos ≤ tokens.length) :
    ∀ hi, stop = some hi → pos ≤ hi ∧ hi ≤ tokens.length :=
  fun hi hs => ⟨h.le_stop hi hs, h.stop_le_length hp hi hs⟩

theorem getD_bounds (h : Evaluates table tokens phrase pos reached s d) (hp : pos ≤ tokens.length) :
    pos ≤ reached.getD pos ∧ reached.getD pos ≤ tokens.length := by
  cases reached with
  | none => exact ⟨Nat.le_refl _, hp⟩
  | some mid => exact h.stop_bounds hp mid rfl

end Evaluates

end BackusNaur

import BackusNaur.SymbolTable
import BackusNaur.Text.Lower

/-!
# Searches

Matching is greedy and never revisits a choice. An alternation tries both operands at the same
position and goes on from the one that reaches further. A group is matched once, or left out if
its items do not match; its repetition mark has no part in it.

A search visits nodes at depths: the definition it starts from has depth zero, the operands of an
alternation lie one deeper and the definition of a referenced symbol lies two deeper. A node below
the bound is taken for one that does not match: the search notes that it met the bound, and goes on.

A search also takes up frames of the stack, one for the match of a node, of a segment and of its
items. So an operand needs one frame more than its alternation and the definition of a referenced
symbol three more than the sequence that refers to it. Where no frame is left for a node the search
ends. The frames of a segment and its items are counted with the node that a reference in it leads
to, and nowhere else.
-/

namespace BackusNaur

structure Span where
  name : String
  lo : Nat
  hi : Nat
deriving DecidableEq, Repr

/-- What a search found: where the match ends, if there is one, and the spans of all references
that matched on the way, those of given-up operands included. -/
structure Reach where
  stop : Option Nat
  spans : List Span
deriving DecidableEq, Repr

namespace Reach

/-- The farther of two ends; no match is nearer than any. -/
def farther : Option Nat → Option Nat → Option Nat
  | some i, some j => some (max i j)
  | some i, none => some i
  | none, stop => stop

theorem farther_eq (i j : Option Nat) : farther i j = i ∨ farther i j = j := by
  cases i with
  | none => exact .inr rfl
  | some i =>
    cases j with
    | none => exact .inl rfl
    | some j =>
      simp only [farther, Option.some.injEq]
      omega

theorem farther_left {i : Nat} {j : Option Nat} (h : ∀ k, j = some k → k ≤ i) :
    farther (some i) j = some i := by
  cases j with
  | none => rfl
  | some k => exact congrArg some (Nat.max_eq_left (h k rfl))

theorem farther_right {i : Option Nat} {j : Nat} (h : ∀ k, i = some k → k ≤ j) :
    farther i (some j) = some j := by
  cases i with
  | none => rfl
  | some k => exact congrArg some (Nat.max_eq_right (h k rfl))

end Reach

inductive Halt where
  | noFrame
  | undefined (name : String)
deriving DecidableEq, Repr

/-- What a search shares with all the searches that it starts. -/
structure Notes where
  spans : List Span := []
  tooDeep : Bool := false
deriving DecidableEq, Repr

abbrev Search := StateT Notes (Except Halt)

namespace Search

def record (span : Span) : Search Unit :=
  modify fun notes => { notes with spans := span :: notes.spans }

/-- Takes what lies below the bound for no match. -/
def giveUp : Search (Option Nat) := do
  modify fun notes => { notes with tooDeep := true }
  return none

section
variable (visit : String → Nat → Search (Option Nat)) (folded : List String)

/-- Matches items in a row from position `pos`. `visit` matches a referenced symbol and `folded` is
the input in lower case. The empty literal matches between any two tokens. -/
def items : List Item → Nat → Search (Option Nat)
  | [], pos => return some pos
  | .literal text :: rest, pos =>
    if text.isEmpty then items rest pos
    else if folded[pos]? = some (Text.lower text) then items rest (pos + 1)
    else return none
  | .reference name :: rest, pos => do
    let some stop ← visit name pos | return none
    record ⟨name, pos, stop⟩
    items rest stop

def segment : Segment → Nat → Search (Option Nat)
  | .run row, pos => items visit folded row pos
  | .group row _, pos => do
    let stop ← items visit folded row pos
    return some (stop.getD pos)

def segments : List Segment → Nat → Search (Option Nat)
  | [], pos => return some pos
  | part :: rest, pos => do
    let some stop ← segment visit folded part pos | return none
    segments rest stop

end

mutual
/-- Matches a node where so many frames and levels of depth are left, its own included. -/
def node (table : SymbolTable) (folded : List String) :
    (frames levels : Nat) → Node → Nat → Search (Option Nat)
  | 0, _, _, _ => throw .noFrame
  | _ + 1, 0, _, _ => giveUp
  | frames + 1, levels + 1, .alternation left right, pos => do
    let i ← node table folded frames levels left pos
    let j ← node table folded frames levels right pos
    return Reach.farther i j
  | frames + 1, levels + 1, .sequence parts, pos =>
    segments (symbol table folded frames levels) folded parts pos

/-- Matches a referenced symbol where so many frames and levels are left below the sequence that
refers to it. The segment of the reference and its items take a frame each. -/
def symbol (table : SymbolTable) (folded : List String) :
    (frames levels : Nat) → String → Nat → Search (Option Nat)
  | 0, _, _, _ | 1, _, _, _ => throw .noFrame
  | frames + 2, levels, name, pos =>
    match table.find? name with
    | none => throw (.undefined name)
    | some definition => node table folded frames (levels - 1) definition pos
end

end Search

end BackusNaur

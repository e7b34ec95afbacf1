import BackusNaur.Proofs.Matching.Evaluation

/-!
# Parse trees

What a table describes, read as a grammar and with all choices left open: either operand of an
alternation, a group or nothing in its place, and literals without regard to case. Repetition marks
have no part in it, as they have none in matching.
-/

namespace BackusNaur

/-- A way to read tokens as a phrase. -/
inductive ParseTree (table : SymbolTable) : Phrase → List String → Type
  | left : ParseTree table (.node left) ts →
      ParseTree table (.node (.alternation left right)) ts
  | right : ParseTree table (.node right) ts →
      ParseTree table (.node (.alternation left right)) ts
  | sequence : ParseTree table (.segments parts) ts → ParseTree table (.node (.sequence parts)) ts
  | noSegments : ParseTree table (.segments []) []
  | run : ParseTree table (.items items) ts → ParseTree table (.segments rest) us →
      ParseTree table (.segments (.run items :: rest)) (ts ++ us)
  | group : ParseTree table (.items items) ts → ParseTree table (.segments rest) us →
      ParseTree table (.segments (.group items mark :: rest)) (ts ++ us)
  | skip : ParseTree table (.segments rest) us →
      ParseTree table (.segments (.group items mark :: rest)) us
  | noItems : ParseTree table (.items []) []
  | emptyLiteral : text = "" → ParseTree table (.items rest) us →
      ParseTree table (.items (.literal text :: rest)) us
  | literal : text ≠ "" → Text.lower token = Text.lower text → ParseTree table (.items rest) us →
      ParseTree table (.items (.literal text :: rest)) (token :: us)
  | reference : table.find? name = some node → ParseTree table (.node node) ts →
      ParseTree table (.items rest) us →
      ParseTree table (.items (.reference name :: rest)) (ts ++ us)

def SymbolTable.Derives (table : SymbolTable) (name : String) (ts : List String) : Prop :=
  ∃ node, table.find? name = some node ∧ Nonempty (ParseTree table (.node node) ts)

namespace ParseTree

def width (_ : ParseTree table phrase ts) : Nat := ts.length

/-- What the references in a tree cover when the tree starts at `pos`. -/
def references : ParseTree table phrase ts → Nat → List Span
  | left tree, pos | right tree, pos | sequence tree, pos => tree.references pos
  | noSegments, _ | noItems, _ => []
  | run first second, pos | group first second, pos =>
    first.references pos ++ second.references (pos + first.width)
  | skip second, pos | emptyLiteral _ second, pos => second.references pos
  | literal _ _ second, pos => second.references (pos + 1)
  | @reference _ name _ _ _ _ _ first second, pos =>
    ⟨name, pos, pos + first.width⟩ ::
      (first.references pos ++ second.references (pos + first.width))

end ParseTree

end BackusNaur

import BackusNaur.Proofs.Matching.ParseTree

/-!
# What one token tells

The least sets of predictive reading: the phrases that can be read over nothing, the texts that the
tokens of a phrase can begin with, and the texts that can come after a symbol. All texts are in
lower case, and an empty literal adds none.

`SymbolTable.Predictive`: wherever the definitions that a symbol leads to leave a choice, the next
token decides it. Definitions that nothing leads to are not asked, and what they would put after a
symbol does not count.
-/

namespace BackusNaur

-- ---------------------------------------------------------------------------
-- Where a phrase can begin
-- ---------------------------------------------------------------------------

/-- The phrase can be read over no tokens. -/
inductive Nullable (table : SymbolTable) : Phrase → Prop
  | left : Nullable table (.node left) → Nullable table (.node (.alternation left right))
  | right : Nullable table (.node right) → Nullable table (.node (.alternation left right))
  | sequence : Nullable table (.segments parts) → Nullable table (.node (.sequence parts))
  | noSegments : Nullable table (.segments [])
  | run : Nullable table (.items items) → Nullable table (.segments rest) →
      Nullable table (.segments (.run items :: rest))
  | group : Nullable table (.segments rest) → Nullable table (.segments (.group items mark :: rest))
  | noItems : Nullable table (.items [])
  | emptyLiteral : text = "" → Nullable table (.items rest) →
      Nullable table (.items (.literal text :: rest))
  | reference : table.find? name = some node → Nullable table (.node node) →
      Nullable table (.items rest) → Nullable table (.items (.reference name :: rest))

/-- The tokens of the phrase can begin with one whose lower case is the given text. -/
inductive First (table : SymbolTable) : Phrase → String → Prop
  | left : First table (.node left) c → First table (.node (.alternation left right)) c
  | right : First table (.node right) c → First table (.node (.alternation left right)) c
  | sequence : First table (.segments parts) c → First table (.node (.sequence parts)) c
  | run : First table (.items items) c → First table (.segments (.run items :: rest)) c
  | pastRun : Nullable table (.items items) → First table (.segments rest) c →
      First table (.segments (.run items :: rest)) c
  | group : First table (.items items) c → First table (.segments (.group items mark :: rest)) c
  | pastGroup : First table (.segments rest) c →
      First table (.segments (.group items mark :: rest)) c
  | pastEmpty : text = "" → First table (.items rest) c →
      First table (.items (.literal text :: rest)) c
  | literal : text ≠ "" → First table (.items (.literal text :: rest)) (Text.lower text)
  | reference : table.find? name = some node → First table (.node node) c →
      First table (.items (.reference name :: rest)) c
  | pastReference : table.find? name = some node → Nullable table (.node node) →
      First table (.items rest) c → First table (.items (.reference name :: rest)) c

section
variable {table : SymbolTable}

@[simp] theorem nullable_alternation : Nullable table (.node (.alternation left right)) ↔
    Nullable table (.node left) ∨ Nullable table (.node right) :=
  ⟨fun | .left h => .inl h | .right h => .inr h, fun | .inl h => .left h | .inr h => .right h⟩

@[simp] theorem nullable_sequence :
    Nullable table (.node (.sequence parts)) ↔ Nullable table (.segments parts) :=
  ⟨fun | .sequence h => h, .sequence⟩

@[simp] theorem nullable_noSegments : Nullable table (.segments []) := .noSegments

@[simp] theorem nullable_run : Nullable table (.segments (.run items :: rest)) ↔
    Nullable table (.items items) ∧ Nullable table (.segments rest) :=
  ⟨fun | .run hi hr => ⟨hi, hr⟩, fun ⟨hi, hr⟩ => .run hi hr⟩

@[simp] theorem nullable_group :
    Nullable table (.segments (.group items mark :: rest)) ↔ Nullable table (.segments rest) :=
  ⟨fun | .group h => h, .group⟩

@[simp] theorem nullable_noItems : Nullable table (.items []) := .noItems

@[simp] theorem nullable_literal : Nullable table (.items (.literal text :: rest)) ↔
    text = "" ∧ Nullable table (.items rest) :=
  ⟨fun | .emptyLiteral he h => ⟨he, h⟩, fun ⟨he, h⟩ => .emptyLiteral he h⟩

@[simp] theorem nullable_reference : Nullable table (.items (.reference name :: rest)) ↔
    (∃ node, table.find? name = some node ∧ Nullable table (.node node)) ∧
      Nullable table (.items rest) :=
  ⟨fun | .reference hd hn hr => ⟨⟨_, hd, hn⟩, hr⟩, fun ⟨⟨_, hd, hn⟩, hr⟩ => .reference hd hn hr⟩

@[simp] theorem first_alternation : First table (.node (.alternation left right)) c ↔
    First table (.node left) c ∨ First table (.node right) c :=
  ⟨fun | .left h => .inl h | .right h => .inr h, fun | .inl h => .left h | .inr h => .right h⟩

@[simp] theorem first_sequence :
    First table (.node (.sequence parts)) c ↔ First table (.segments parts) c :=
  ⟨fun | .sequence h => h, .sequence⟩

@[simp] theorem not_first_noSegments : ¬ First table (.segments []) c := nofun

@[simp] theorem first_run : First table (.segments (.run items :: rest)) c ↔
    First table (.items items) c ∨ Nullable table (.items items) ∧ First table (.segments rest) c :=
  ⟨fun | .run h => .inl h | .pastRun hn h => .inr ⟨hn, h⟩,
    fun | .inl h => .run h | .inr ⟨hn, h⟩ => .pastRun hn h⟩

@[simp] theorem first_group : First table (.segments (.group items mark :: rest)) c ↔
    First table (.items items) c ∨ First table (.segments rest) c :=
  ⟨fun | .group h => .inl h | .pastGroup h => .inr h,
    fun | .inl h => .group h | .inr h => .pastGroup h⟩

@[simp] theorem not_first_noItems : ¬ First table (.items []) c := nofun

@[simp] theorem first_literal : First table (.items (.literal text :: rest)) c ↔
    text = "" ∧ First table (.items rest) c ∨ text ≠ "" ∧ c = Text.lower text :=
  ⟨fun | .pastEmpty he h => .inl ⟨he, h⟩ | .literal hne => .inr ⟨hne, rfl⟩,
    fun | .inl ⟨he, h⟩ => .pastEmpty he h | .inr ⟨hne, h⟩ => h ▸ .literal hne⟩

@[simp] theorem first_reference : First table (.items (.reference name :: rest)) c ↔
    ∃ node, table.find? name = some node ∧
      (First table (.node node) c ∨ Nullable table (.node node) ∧ First table (.items rest) c) :=
  ⟨fun | .reference hd h => ⟨_, hd, .inl h⟩ | .pastReference hd hn h => ⟨_, hd, .inr ⟨hn, h⟩⟩,
    fun | ⟨_, hd, .inl h⟩ => .reference hd h | ⟨_, hd, .inr ⟨hn, h⟩⟩ => .pastReference hd hn h⟩

end

/-- What can be next where a phrase stands and these texts can come after it. -/
def Ahead (table : SymbolTable) (phrase : Phrase) (after : String → Prop) (c : String) : Prop :=
  First table phrase c ∨ Nullable table phrase ∧ after c

-- ---------------------------------------------------------------------------
-- What can come after a symbol
-- ---------------------------------------------------------------------------

def Node.sequences : Node → List (List Segment)
  | alternation left right => left.sequences ++ right.sequences
  | sequence parts => [parts]

def Node.alternations : Node → List (Node × Node)
  | alternation left right => (left, right) :: (left.alternations ++ right.alternations)
  | sequence _ => []

namespace SymbolTable

/-- References lead from the start symbol to this symbol and its definition. -/
inductive LeadsTo (table : SymbolTable) (start : String) : String → Node → Prop
  | start : table.find? start = some node → LeadsTo table start start node
  | reference : LeadsTo table start owner whole → name ∈ whole.references →
      table.find? name = some node → LeadsTo table start name node

/-- A definition that `start` leads to, that of `owner`, refers to `name`; the items `back` come
after the reference in its segment, and the segments `after` come after these. -/
def Refers (table : SymbolTable) (start owner name : String) (back : List Item)
    (after : List Segment) : Prop :=
  ∃ whole before part front, table.LeadsTo start owner whole ∧
    before ++ part :: after ∈ whole.sequences ∧ part.items = front ++ .reference name :: back

/-- A token whose lower case is the given text can come after the symbol. -/
inductive Follow (table : SymbolTable) (start : String) : String → String → Prop
  | inSegment : table.Refers start owner name back after → First table (.items back) c →
      Follow table start name c
  | inSequence : table.Refers start owner name back after → Nullable table (.items back) →
      First table (.segments after) c → Follow table start name c
  | afterOwner : table.Refers start owner name back after → Nullable table (.items back) →
      Nullable table (.segments after) → Follow table start owner c → Follow table start name c

/-- In all definitions that `start` leads to one token decides between the operands of an
alternation and on whether to enter a group. -/
structure Predictive (table : SymbolTable) (start : String) : Prop where
  first_apart : table.LeadsTo start name node → (left, right) ∈ node.alternations →
    First table (.node left) c → ¬ First table (.node right) c
  left_nullable : table.LeadsTo start name node → (left, right) ∈ node.alternations →
    Nullable table (.node left) → First table (.node right) c → ¬ table.Follow start name c
  right_nullable : table.LeadsTo start name node → (left, right) ∈ node.alternations →
    Nullable table (.node right) → First table (.node left) c → ¬ table.Follow start name c
  group : table.LeadsTo start name node →
    before ++ .group items mark :: after ∈ node.sequences → First table (.items items) c →
    ¬ Ahead table (.segments after) (table.Follow start name) c

end SymbolTable

theorem Node.mem_references {node : Node} {parts : List Segment} {part : Segment}
    (hs : parts ∈ node.sequences) (hp : part ∈ parts) (hi : .reference name ∈ part.items) :
    name ∈ node.references := by
  induction node with
  | alternation left right ihl ihr =>
    rcases List.mem_append.mp hs with hs | hs
    · exact List.mem_append_left _ (ihl hs)
    · exact List.mem_append_right _ (ihr hs)
  | sequence segments =>
    obtain rfl := List.mem_singleton.mp hs
    exact List.mem_flatMap.mpr ⟨part, hp, List.mem_filterMap.mpr ⟨_, hi, rfl⟩⟩

variable {table : SymbolTable}

-- ---------------------------------------------------------------------------
-- Parse trees
-- ---------------------------------------------------------------------------

namespace ParseTree

theorem nullable (tree : ParseTree table phrase ts) (h : ts = []) : Nullable table phrase := by
  induction tree with
  | left _ ih => exact .left (ih h)
  | right _ ih => exact .right (ih h)
  | sequence _ ih => exact .sequence (ih h)
  | noSegments => exact .noSegments
  | run _ _ ihi ihr =>
    obtain ⟨hi, hr⟩ := List.append_eq_nil_iff.mp h
    exact .run (ihi hi) (ihr hr)
  | group _ _ _ ihr => exact .group (ihr (List.append_eq_nil_iff.mp h).2)
  | skip _ ih => exact .group (ih h)
  | noItems => exact .noItems
  | emptyLiteral he _ ih => exact .emptyLiteral he (ih h)
  | literal => cases h
  | reference hd _ _ ihn ihr =>
    obtain ⟨hn, hr⟩ := List.append_eq_nil_iff.mp h
    exact .reference hd (ihn hn) (ihr hr)

theorem first (tree : ParseTree table phrase ts) (h : ts.head? = some token) :
    First table phrase (Text.lower token) := by
  induction tree with
  | left _ ih => exact .left (ih h)
  | right _ ih => exact .right (ih h)
  | sequence _ ih => exact .sequence (ih h)
  | noSegments | noItems => cases h
  | @run _ ts _ _ first _ ihi ihr =>
    cases ts with
    | nil => exact .pastRun (first.nullable rfl) (ihr h)
    | cons => exact .run (ihi h)
  | @group _ ts _ _ _ _ _ ihi ihr =>
    cases ts with
    | nil => exact .pastGroup (ihr h)
    | cons => exact .group (ihi h)
  | skip _ ih => exact .pastGroup (ih h)
  | emptyLiteral he _ ih => exact .pastEmpty he (ih h)
  | literal hn hl _ _ =>
    cases h
    rw [hl]
    exact .literal hn
  | @reference _ _ ts _ _ hd first _ ihn ihr =>
    cases ts with
    | nil => exact .pastReference hd (first.nullable rfl) (ihr h)
    | cons => exact .reference hd (ihn h)

end ParseTree

end BackusNaur

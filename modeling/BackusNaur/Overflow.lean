import BackusNaur.Definition

/-!
# Definitions that are too long

The alternatives of a definition are cut off from the last to the first, each cut a frame further
down the stack, before any of them is looked at. So a definition with too many alternatives is never
read, whatever they hold. Telling of a definition in a log goes down through its alternatives in the
same way, after it has been read.
-/

namespace BackusNaur

/-- The most alternatives that there is room for on the stack: where a definition is cut, and where
it is told of. Where nothing is told, the latter is no less than the former. -/
structure Room where
  cut : Nat
  told : Nat
deriving DecidableEq, Repr

/-- The fault is in the alternatives of a definition, which are looked at once they are cut. -/
def DefinitionFault.isOfAlternatives : DefinitionFault → Bool
  | emptyAlternative | strayClose | unclosedGroup | nestedGroup => true
  | expectedDefinition | headNotSymbol _ | duplicateSymbol .. | emptyBody _ | selfReference _
  | noDefinitions => false

namespace Block

def alternatives (b : Block) : Nat := (pieces Node.isBar b.body).length

/-- Whether there is no room for the definition, where `known` are the definitions before it. -/
def overflows (room : Room) (known : List Definition) (b : Block) : Bool :=
  match b.define known with
  | .ok _ => min room.cut room.told < b.alternatives
  | .error fault => fault.isOfAlternatives && room.cut < b.alternatives

end Block

namespace Reading

/-- The definitions before the first one that there is no room for, if it is come to. -/
def overflowIn? (room : Room) (known : List Definition) : List Block → Option (List Definition)
  | [] => none
  | b :: rest =>
    if b.overflows room known then some known
    else match b.define known with
      | .error _ => none
      | .ok definition => overflowIn? room (known ++ [definition]) rest

def overflow? (room : Room) (text : String) : Option (List Definition) :=
  match Block.cut (Line.ofText text) with
  | ([], blocks) => overflowIn? room [] blocks
  | (_ :: _, _) => none

end Reading

end BackusNaur

import BackusNaur.Text.CaseTable

/-!
# Lower case

Every letter goes to its lower-case partner. Two letters need more: the capital I with a dot
becomes two characters, and a capital sigma becomes a final one at the end of a word.
-/

namespace BackusNaur.Text

def inRanges (ranges : List (Nat × Nat)) (n : Nat) : Bool :=
  ranges.any fun (first, last) => first ≤ n && n ≤ last

def CaseTable.Run.holds (r : Run) (n : Nat) : Bool :=
  r.first ≤ n && n ≤ r.last && (n - r.first) % r.step == 0

/-- The lower-case partner of a letter; any other character is its own. -/
def lowerChar (c : Char) : Char :=
  if c.toNat < 0x80 then c.toLower
  else match CaseTable.runs.find? (·.holds c.toNat) with
    | some r => Char.ofNat (c.toNat + r.shift).toNat
    | none => c

/-- Whether the nearest character that is not ignored is a letter with case. -/
def meetsCased (cs : List Char) : Bool :=
  (cs.find? fun c => !inRanges CaseTable.ignored c.toNat).any fun c =>
    inRanges CaseTable.cased c.toNat

/-- The lower case of `c` between the characters `before`, nearest first, and `after`. -/
def lowerBetween (before : List Char) (c : Char) (after : List Char) : List Char :=
  if c = 'İ' then ['i', '\u0307']
  else if c = 'Σ' then [if meetsCased before && !meetsCased after then 'ς' else 'σ']
  else [lowerChar c]

def lowerAfter (before : List Char) : List Char → List Char
  | [] => []
  | c :: rest => lowerBetween before c rest ++ lowerAfter (c :: before) rest

def lower (text : String) : String := String.ofList (lowerAfter [] text.toList)

end BackusNaur.Text

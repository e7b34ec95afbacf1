import BackusNaur.CommandLine.Switch
import BackusNaur.Text.Numeral

/-!
# Words of a command line

Every argument is a word with a role of its own, whatever the arguments around it are, except that
after `--` all words are operands. A long switch may be shortened as far as it stays unambiguous,
and its value may follow an equals sign.
-/

namespace BackusNaur.CommandLine

inductive Role where
  | operand
  /-- The word after which all words are operands. -/
  | terminator
  /-- A switch with two dashes and the value after its equals sign. -/
  | long (s : Switch) (value : Option String)
  /-- A switch of one letter and the value written to it: what stands after the letter, where an
  equals sign may come first. -/
  | short (s : Switch) (value : Option (List Char))
  | unknownSwitch
deriving DecidableEq, Repr

structure Word where
  text : String
  role : Role
deriving DecidableEq, Repr

namespace Role

def isDigit (c : Char) : Bool := (Text.digitValue? c).isSome

/-- Whether a text after its dash makes a negative number: digits, or a point with digits after
it, and then the end of the text or of its only line. -/
def isNumber (cs : List Char) : Bool :=
  let isEnd (cs : List Char) : Bool := cs.isEmpty || cs == ['\n']
  let whole := cs.takeWhile isDigit
  match cs.drop whole.length with
  | '.' :: rest =>
    let fraction := rest.takeWhile isDigit
    !fraction.isEmpty && isEnd (rest.drop fraction.length)
  | rest => !whole.isEmpty && isEnd rest

def ofUnknown (cs : List Char) : Role :=
  if isNumber (cs.drop 1) || cs.contains ' ' then operand else unknownSwitch

def ofLong (switches : List Switch) (text : String) : Except Misuse Role :=
  let name := text.toList.takeWhile (· != '=')
  let value := match text.toList.drop name.length with
    | [] => none
    | _ :: value => some (String.ofList value)
  match Switch.find? switches (String.ofList name) with
  | some s => .ok (long s value)
  | none =>
    match Switch.startingWith switches (String.ofList name) with
    | [] => .ok (ofUnknown text.toList)
    | [(_, s)] => .ok (long s value)
    | several => .error (.ambiguous text (several.map Prod.fst))

def ofText (switches : List Switch) (text : String) : Except Misuse Role :=
  match text.toList with
  | '-' :: '-' :: _ => ofLong switches text
  | '-' :: letter :: rest =>
    match Switch.find? switches (String.ofList ['-', letter]) with
    | some s => .ok (short s (writtenTo rest))
    | none => .ok (ofUnknown text.toList)
  | _ => .ok operand
where
  writtenTo : List Char → Option (List Char)
    | [] => none
    | '=' :: value => some value
    | value => some value

end Role

def Word.ofArguments (switches : List Switch) : List String → Except Misuse (List Word)
  | [] => .ok []
  | text :: rest =>
    if text = "--" then .ok (⟨text, .terminator⟩ :: rest.map (⟨·, .operand⟩))
    else do
      let role ← Role.ofText switches text
      return ⟨text, role⟩ :: (← ofArguments switches rest)

end BackusNaur.CommandLine

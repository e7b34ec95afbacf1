import BackusNaur.CommandLine.Word

/-!
# Steps of a command line

Words are taken in order: each is a switch with its value, an operand that is still wanted, the
start of a command, or left over. Taking stops at the first misuse. Two dashes by themselves are
lost where an operand is wanted, except right after the terminator. Where they are written to a
switch as its value, it is up to the runtime whether they are kept or lost.
-/

namespace BackusNaur.CommandLine

/-- The text of an argument; there is none where it was lost. -/
abbrev Argument := Option String

def Argument.ofText (text : String) : Argument := if text = "--" then none else some text

inductive Step where
  /-- A switch with its value. A switch that takes none has none. -/
  | switch (s : Switch) (value : Argument)
  | operand (text : Argument)
  /-- The name of a command and all words after it. -/
  | command (words : List String)
  | leftOver (text : String)
  | misuse (m : Misuse)
deriving DecidableEq, Repr

inductive Wanted where
  | command
  | operands (n : Nat)
deriving DecidableEq, Repr

namespace Step

/-- The switches that are written together behind one dash, where `s` is the first of them. No
switch of one letter takes a value, so every letter must be a switch. -/
def ofLetters (switches : List Switch) (s : Switch) : List Char → Except Misuse (List Step)
  | [] => .ok [.switch s none]
  | letter :: rest =>
    match Switch.find? switches (String.ofList ['-', letter]) with
    | none => .error (.valueIgnored s (String.ofList (letter :: rest)))
    | some next => do return .switch s none :: (← ofLetters switches next rest)

def ofShort (switches : List Switch) (s : Switch) : Option (List Char) → Except Misuse (List Step)
  | none => .ok [.switch s none]
  | some [] => .error (.valueIgnored s "")
  | some letters => ofLetters switches s letters

def valueOf (keepsDashes : Bool) (text : String) : Argument :=
  if keepsDashes then some text else .ofText text

/-- The steps of some words. The terminator is passed over beside a wanted operand and left over
elsewhere; it is a part of a command that follows it. -/
def ofWords (keepsDashes : Bool) (switches : List Switch) : Wanted → List Word → List Step
  | _, [] => []
  | .command, ⟨text, .operand⟩ :: rest => [.command (text :: rest.map Word.text)]
  | .command, ⟨text, .terminator⟩ :: next :: rest =>
    [.command (text :: next.text :: rest.map Word.text)]
  | .operands (n + 1), ⟨text, .operand⟩ :: ⟨_, .terminator⟩ :: rest =>
    .operand text :: ofWords keepsDashes switches (.operands n) rest
  | .operands (n + 1), ⟨text, .operand⟩ :: rest =>
    .operand (.ofText text) :: ofWords keepsDashes switches (.operands n) rest
  | .operands (n + 1), ⟨_, .terminator⟩ :: next :: rest =>
    .operand next.text :: ofWords keepsDashes switches (.operands n) rest
  | wanted, ⟨_, .long s value⟩ :: rest =>
    match s.takesValue, value, rest with
    | true, some value, rest =>
      .switch s (valueOf keepsDashes value) :: ofWords keepsDashes switches wanted rest
    | true, none, ⟨value, .operand⟩ :: rest =>
      .switch s value :: ofWords keepsDashes switches wanted rest
    | true, none, _ => [.misuse (.valueMissing s)]
    | false, none, rest => .switch s none :: ofWords keepsDashes switches wanted rest
    | false, some value, _ => [.misuse (.valueIgnored s value)]
  | wanted, ⟨_, .short s value⟩ :: rest =>
    match ofShort switches s value with
    | .ok steps => steps ++ ofWords keepsDashes switches wanted rest
    | .error m => [.misuse m]
  | wanted, ⟨text, _⟩ :: rest => .leftOver text :: ofWords keepsDashes switches wanted rest

end Step

end BackusNaur.CommandLine

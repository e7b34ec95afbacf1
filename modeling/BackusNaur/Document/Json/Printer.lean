import BackusNaur.Document.Json

/-!
# Writing JSON

Every item of a list and every field of a table has a line of its own, two spaces further in than
the bracket that closes it. What is not ASCII is written as it is or, on request, as the escapes of
its code units.
-/

namespace BackusNaur.Json

def unitEscape (unit : Nat) : List Char := '\\' :: 'u' :: Text.hex 4 unit

def charEscape (c : Char) : List Char :=
  let n := c.toNat
  if n < 0x10000 then unitEscape n
  else unitEscape (0xd800 + (n - 0x10000) / 0x400) ++ unitEscape (0xdc00 + (n - 0x10000) % 0x400)

def renderChar (ascii : Bool) : Char → List Char
  | '"' => ['\\', '"']
  | '\\' => ['\\', '\\']
  | '\x08' => ['\\', 'b']
  | '\x0c' => ['\\', 'f']
  | '\n' => ['\\', 'n']
  | '\r' => ['\\', 'r']
  | '\t' => ['\\', 't']
  | c => if c.toNat < 0x20 || (ascii && 0x7f ≤ c.toNat) then charEscape c else [c]

/-- A code point inside a string; half a surrogate pair has no other form than its escape. -/
def renderPoint (ascii : Bool) (n : Nat) : List Char :=
  if CodePoints.isHalf n then unitEscape n else renderChar ascii (CodePoints.toChar n)

def renderString (ascii : Bool) (s : CodePoints) : List Char :=
  '"' :: s.points.flatMap (renderPoint ascii) ++ ['"']

def lineStart (indent : Nat) : List Char := '\n' :: List.replicate indent ' '

def enclose (opening closing : Char) (indent : Nat) (items : List (List Char)) : List Char :=
  if items.isEmpty then [opening, closing]
  else
    opening :: lineStart (indent + 2) ++ (',' :: lineStart (indent + 2)).intercalate items
      ++ lineStart indent ++ [closing]

mutual
/-- A value whose closing bracket stands `indent` spaces in. What JSON has no notation for is
written as a string. -/
def renderValue (ascii : Bool) (indent : Nat) : Value → List Char
  | .null => "null".toList
  | .bool b => (if b then "true" else "false").toList
  | .integer n => s!"{n}".toList
  | .float .notANumber => "NaN".toList
  | .float (.infinite negative) => (if negative then "-Infinity" else "Infinity").toList
  | .float x => x.text.toList
  | .text s => renderString ascii s
  | .list items => enclose '[' ']' indent (renderItems ascii (indent + 2) items)
  | .table fields => enclose '\x7b' '\x7d' indent (renderFields ascii (indent + 2) fields)
  | value => renderString ascii value.plain

def renderItems (ascii : Bool) (indent : Nat) : List Value → List (List Char)
  | [] => []
  | item :: rest => renderValue ascii indent item :: renderItems ascii indent rest

def renderFields (ascii : Bool) (indent : Nat) : List (CodePoints × Value) → List (List Char)
  | [] => []
  | (key, item) :: rest =>
    (renderString ascii key ++ ':' :: ' ' :: renderValue ascii indent item)
      :: renderFields ascii indent rest
end

def render (v : Value) (ascii : Bool := true) : String := String.ofList (renderValue ascii 0 v)

end BackusNaur.Json

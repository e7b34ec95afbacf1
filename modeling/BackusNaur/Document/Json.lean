import BackusNaur.Document.Value

/-!
# Reading JSON

Beyond the standard, `NaN`, `Infinity` and `-Infinity` are numbers, and of two fields with one key
the last counts. An integer may have as many digits as a numeral, unless the reader is given another
limit or none. A text is refused as a whole; where it is wrong is not told.
-/

namespace BackusNaur.Json

def isSpace (c : Char) : Bool := c == ' ' || c == '\t' || c == '\n' || c == '\r'

def skipSpace (cs : List Char) : List Char := cs.dropWhile isSpace

def escaped? (c : Char) : Option Char :=
  match c with
  | '"' | '\\' | '/' => some c
  | 'b' => some '\x08'
  | 'f' => some '\x0c'
  | 'n' => some '\n'
  | 'r' => some '\r'
  | 't' => some '\t'
  | _ => none

/-- The code units of a string after its opening quote, and the text after its closing one. -/
def units? : List Char → Option (List Nat × List Char)
  | [] => none
  | '"' :: rest => some ([], rest)
  | '\\' :: 'u' :: a :: b :: c :: d :: rest => do
    let unit ← Text.hexNumber? [a, b, c, d]
    let (units, rest) ← units? rest
    return (unit :: units, rest)
  | '\\' :: c :: rest => do
    let char ← escaped? c
    let (units, rest) ← units? rest
    return (char.toNat :: units, rest)
  | c :: rest =>
    if c.toNat < 0x20 then none
    else do
      let (units, rest) ← units? rest
      return (c.toNat :: units, rest)

/-- The code points of code units: two halves of a pair are one code point, and half a pair stands
by itself. -/
def joinPairs : List Nat → List Nat
  | high :: low :: rest =>
    if 0xd800 ≤ high ∧ high < 0xdc00 ∧ 0xdc00 ≤ low ∧ low < 0xe000 then
      (0x10000 + (high - 0xd800) * 0x400 + (low - 0xdc00)) :: joinPairs rest
    else high :: joinPairs (low :: rest)
  | units => units

def string? (cs : List Char) : Option (CodePoints × List Char) := do
  let (units, rest) ← units? cs
  return (⟨joinPairs units⟩, rest)

def exponent? : List Char → Option (Int × List Char)
  | e :: rest =>
    if e = 'e' ∨ e = 'E' then
      let (negative, rest) := Text.takeSign rest
      let digits := rest.takeWhile Char.isDigit
      if digits.isEmpty then none
      else
        let n : Int := Text.ofDigits (digits.map fun c => c.toNat - '0'.toNat)
        some (if negative then -n else n, rest.dropWhile Char.isDigit)
    else none
  | [] => none

def fraction? : List Char → Option (List Char × List Char)
  | '.' :: rest =>
    let digits := rest.takeWhile Char.isDigit
    if digits.isEmpty then none else some (digits, rest.dropWhile Char.isDigit)
  | _ => none

def decimal (negative : Bool) (whole fraction : List Char) (exponent : Int) : Value :=
  let digits := Text.ofDigits ((whole ++ fraction).map fun c => c.toNat - '0'.toNat)
  .float (Binary64.ofDecimal negative digits (exponent - fraction.length))

/-- The digits before the point; they start with zero only if that is all. -/
def whole? : List Char → Option (List Char × List Char)
  | '0' :: rest => some (['0'], rest)
  | cs =>
    let digits := cs.takeWhile Char.isDigit
    if digits.isEmpty then none else some (digits, cs.dropWhile Char.isDigit)

section
variable (limit : Option Nat)

/-- A number after its sign. `limit` is the greatest number of digits that an integer may have, if
there is one. -/
def unsigned? (negative : Bool) (cs : List Char) : Option (Value × List Char) := do
  let (whole, rest) ← whole? cs
  let fraction := fraction? rest
  let rest := (fraction.map Prod.snd).getD rest
  let exponent := exponent? rest
  let rest := (exponent.map Prod.snd).getD rest
  if fraction.isNone && exponent.isNone then
    if limit.any (· < whole.length) then none
    else
      let n : Int := Text.ofDigits (whole.map fun c => c.toNat - '0'.toNat)
      return (.integer (if negative then -n else n), rest)
  else
    return (decimal negative whole ((fraction.map Prod.fst).getD [])
      ((exponent.map Prod.fst).getD 0), rest)

def number? : List Char → Option (Value × List Char)
  | '-' :: rest => unsigned? limit true rest
  | cs => unsigned? limit false cs

def scalar? : List Char → Option (Value × List Char)
  | 'n' :: 'u' :: 'l' :: 'l' :: rest => some (.null, rest)
  | 't' :: 'r' :: 'u' :: 'e' :: rest => some (.bool true, rest)
  | 'f' :: 'a' :: 'l' :: 's' :: 'e' :: rest => some (.bool false, rest)
  | 'N' :: 'a' :: 'N' :: rest => some (.float .notANumber, rest)
  | 'I' :: 'n' :: 'f' :: 'i' :: 'n' :: 'i' :: 't' :: 'y' :: rest =>
    some (.float (.infinite false), rest)
  | '-' :: 'I' :: 'n' :: 'f' :: 'i' :: 'n' :: 'i' :: 't' :: 'y' :: rest =>
    some (.float (.infinite true), rest)
  | cs => number? limit cs

mutual
/-- A value at the start of a text, and the text after it. The first argument bounds the number of
steps; twice the length of the text is enough. -/
def value? : Nat → List Char → Option (Value × List Char)
  | 0, _ => none
  | fuel + 1, cs =>
    match cs with
    | '"' :: rest => do
      let (s, rest) ← string? rest
      return (.text s, rest)
    | '[' :: rest =>
      match skipSpace rest with
      | ']' :: rest => some (.list [], rest)
      | rest => do
        let (items, rest) ← items? fuel rest
        return (.list items, rest)
    | '\x7b' :: rest =>
      match skipSpace rest with
      | '\x7d' :: rest => some (.table [], rest)
      | rest => do
        let (fields, rest) ← fields? fuel [] rest
        return (.table fields, rest)
    | _ => scalar? limit cs

def items? : Nat → List Char → Option (List Value × List Char)
  | 0, _ => none
  | fuel + 1, cs => do
    let (item, rest) ← value? fuel cs
    match skipSpace rest with
    | ']' :: rest => return ([item], rest)
    | ',' :: rest =>
      let (items, rest) ← items? fuel (skipSpace rest)
      return (item :: items, rest)
    | _ => none

def fields? : Nat → List (CodePoints × Value) → List Char →
    Option (List (CodePoints × Value) × List Char)
  | 0, _, _ => none
  | fuel + 1, known, cs =>
    match cs with
    | '"' :: rest => do
      let (key, rest) ← string? rest
      match skipSpace rest with
      | ':' :: rest =>
        let (value, rest) ← value? fuel (skipSpace rest)
        let known := Value.put key value known
        match skipSpace rest with
        | '\x7d' :: rest => return (known, rest)
        | ',' :: rest => fields? fuel known (skipSpace rest)
        | _ => none
      | _ => none
    | _ => none
end

end

def read? (text : List Char) (limit : Option Nat := some Text.numeralLimit) : Option Value := do
  let (value, rest) ← value? limit (2 * text.length + 2) (skipSpace text)
  if (skipSpace rest).isEmpty then some value else none

end BackusNaur.Json

import BackusNaur.Text.Blank
import BackusNaur.Text.DigitTable
import BackusNaur.Text.Quoted

/-!
# Numerals

A numeral is an optional sign and decimal digits of any script, with at most one underscore between
two digits, and blanks around it. The separators from `\x1c` to `\x1f`, blank elsewhere, are not
blank here. A numeral may have 4300 digits and no more.
-/

namespace BackusNaur.Text

inductive NumeralFault where
  | malformed
  | tooLong (digits : Nat)
deriving DecidableEq, Repr

def digitValue? (c : Char) : Option Nat :=
  (DigitTable.zeros.find? fun z => z ≤ c.toNat && c.toNat < z + 10).map (c.toNat - ·)

def isNumeralBlank (c : Char) : Bool := isBlank c && !(28 ≤ c.toNat && c.toNat ≤ 31)

/-- The values of the digits at the start of a text, two of them perhaps with an underscore
between, and the text after them. -/
def takeDigits : List Char → List Nat × List Char
  | [] => ([], [])
  | c :: '_' :: next :: rest =>
    match digitValue? c with
    | none => ([], c :: '_' :: next :: rest)
    | some value =>
      if (digitValue? next).isSome then
        let (values, rest) := takeDigits (next :: rest)
        (value :: values, rest)
      else ([value], '_' :: next :: rest)
  | c :: rest =>
    match digitValue? c with
    | none => ([], c :: rest)
    | some value =>
      let (values, rest) := takeDigits rest
      (value :: values, rest)

def ofDigits (digits : List Nat) : Nat := digits.foldl (fun n d => 10 * n + d) 0

def hexValue? (c : Char) : Option Nat :=
  if c.isDigit then some (c.toNat - '0'.toNat)
  else if 'a' ≤ c ∧ c ≤ 'f' then some (c.toNat - 'a'.toNat + 10)
  else if 'A' ≤ c ∧ c ≤ 'F' then some (c.toNat - 'A'.toNat + 10)
  else none

def hexNumber? (cs : List Char) : Option Nat :=
  (cs.mapM hexValue?).map fun values => values.foldl (fun n v => 16 * n + v) 0

def takeSign : List Char → Bool × List Char
  | '-' :: rest => (true, rest)
  | '+' :: rest => (false, rest)
  | cs => (false, cs)

def numeralLimit : Nat := 4300

def isLongInteger (n : Int) : Bool := Nat.pow 10 numeralLimit ≤ n.natAbs

/-- The integer that a text writes. Too many digits are a fault of their own even before something
that no numeral holds, unless that is a misplaced underscore. -/
def readInt (text : String) : Except NumeralFault Int :=
  let cs := text.toList.dropWhile isNumeralBlank
  let cs := (cs.reverse.dropWhile isNumeralBlank).reverse
  let (negative, cs) := takeSign cs
  let (digits, rest) := takeDigits cs
  if digits.isEmpty || rest.head? == some '_' then .error .malformed
  else if numeralLimit < digits.length then .error (.tooLong digits.length)
  else if !rest.isEmpty then .error .malformed
  else .ok (if negative then -(ofDigits digits : Int) else ofDigits digits)

/-- Why a text is no integer, in words, where the text is `shown` between quotes. -/
def NumeralFault.message (shown : String) : NumeralFault → String
  | malformed =>
    "invalid literal for int() with base 10: " ++ String.ofList (shown.toList.take 200)
  | tooLong digits =>
    s!"Exceeds the limit ({numeralLimit} digits) for integer string conversion: value has "
      ++ s!"{digits} digits; use sys.set_int_max_str_digits() to increase the limit"

end BackusNaur.Text

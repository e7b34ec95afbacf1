/-!
# Binary floating point

Numbers with 53 binary digits and exponents from -1074 to 971. A decimal numeral stands for the
number nearest to it, an even mantissa winning a tie, and a number is written with the fewest
decimal digits that stand for it, the nearest of several such.
-/

namespace BackusNaur

/-- A floating-point number; a finite one is `mantissa * 2 ^ exponent` with its sign. -/
inductive Binary64 where
  | finite (negative : Bool) (mantissa : Nat) (exponent : Int)
  | infinite (negative : Bool)
  | notANumber
deriving DecidableEq, Repr

namespace Binary64

def power (base : Nat) (exponent : Int) : Nat := Nat.pow base exponent.toNat

/-- The integer nearest to `num / den`, the even one of two. -/
def roundDiv (num den : Nat) : Nat :=
  let q := num / den
  let twice := 2 * (num % den)
  if twice < den ∨ (twice = den ∧ q % 2 = 0) then q else q + 1

def ofRatio (negative : Bool) (num den : Nat) : Binary64 :=
  let guess : Int := (num.log2 : Int) - den.log2
  let scaled (e : Int) : Nat × Nat := (num * power 2 (-e), den * power 2 e)
  let (n, d) := scaled guess
  let log := if d ≤ n then guess else guess - 1
  let e := max (log - 52) (-1074)
  let (n, d) := scaled e
  let m := roundDiv n d
  let (m, e) := if m = power 2 53 then (power 2 52, e + 1) else (m, e)
  if 971 < e then infinite negative else finite negative m e

/-- The number nearest to `digits * 10 ^ exponent`. Numerals that are far too large or too small
are told from their length. -/
def ofDecimal (negative : Bool) (digits : Nat) (exponent : Int) : Binary64 :=
  let length : Int := (Nat.toDigits 10 digits).length
  if digits = 0 ∨ length + exponent < -330 then finite negative 0 (-1074)
  else if 310 < length + exponent then infinite negative
  else ofRatio negative (digits * power 10 exponent) (power 10 (-exponent))

def isZero : Binary64 → Bool
  | finite _ mantissa _ => mantissa == 0
  | _ => false

/-- The integer part, if the number has one: what lies behind the point is dropped. -/
def truncate? : Binary64 → Option Int
  | finite negative mantissa exponent =>
    let whole : Int := (mantissa * power 2 exponent / power 2 (-exponent) : Nat)
    some (if negative then -whole else whole)
  | _ => none

/-- The place of the decimal point of `num / den`: the `k` with `10 ^ (k - 1) ≤ num / den < 10 ^ k`
that a positive number above `10 ^ -330` has. -/
def pointPlace (num den : Nat) : Int :=
  if den ≤ num then (Nat.toDigits 10 (num / den)).length
  else
    let zeros := ((List.range 330).find? fun (j : Nat) => den ≤ num * power 10 (j + 1)).getD 330
    (-zeros : Int)

/-- The decimal numeral of `n` digits, next to `num / den` below or above, that stands for the
number `target`, the nearer one of two; it is `digits * 10 ^ exponent`. -/
def nearestNumeral? (target : Binary64) (num den : Nat) (point : Int) (n : Nat) :
    Option (Nat × Int) :=
  let exponent := point - n
  let num := num * power 10 (-exponent)
  let den := den * power 10 exponent
  let below := num / den
  let hits (digits : Nat) : Bool := ofDecimal false digits exponent == target
  let nearest := roundDiv num den
  let other := if nearest = below then below + 1 else below
  if hits nearest then some (nearest, exponent)
  else if hits other then some (other, exponent)
  else none

def shortest (mantissa : Nat) (exponent : Int) : List Char × Int :=
  let num := mantissa * power 2 exponent
  let den := power 2 (-exponent)
  let point := pointPlace num den
  let (digits, e) := ((List.range 17).findSome? fun n =>
    nearestNumeral? (finite false mantissa exponent) num den point (n + 1)).getD (0, 0)
  let shown := Nat.toDigits 10 digits
  let kept := (shown.reverse.dropWhile (· == '0')).reverse
  (kept, e + shown.length)

/-- A positive number in writing: positional from `10 ^ -4` to below `10 ^ 16` and with at least
one digit on either side of the point, else with an exponent of a sign and at least two digits. -/
def writeDigits (digits : List Char) (point : Int) : List Char :=
  if point ≤ -4 ∨ 16 < point then
    let e := point - 1
    let shown := Nat.toDigits 10 e.natAbs
    digits.take 1 ++ (if digits.length ≤ 1 then [] else '.' :: digits.drop 1)
      ++ 'e' :: (if e < 0 then '-' else '+') :: List.replicate (2 - shown.length) '0' ++ shown
  else if point ≤ 0 then '0' :: '.' :: List.replicate (-point).toNat '0' ++ digits
  else
    let whole := digits.take point.toNat
    let rest := digits.drop point.toNat
    whole ++ List.replicate (point.toNat - whole.length) '0'
      ++ '.' :: if rest.isEmpty then ['0'] else rest

def text : Binary64 → String
  | finite negative mantissa exponent =>
    let unsigned := if mantissa = 0 then ['0', '.', '0'] else
      let (digits, point) := shortest mantissa exponent
      writeDigits digits point
    String.ofList (if negative then '-' :: unsigned else unsigned)
  | infinite negative => if negative then "-inf" else "inf"
  | notANumber => "nan"

end Binary64

end BackusNaur

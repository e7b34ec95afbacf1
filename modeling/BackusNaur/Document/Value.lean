import BackusNaur.Binary64
import BackusNaur.Text.CodePoints
import BackusNaur.Text.Numeral

/-!
# Values of a settings document

What a document in either notation can hold, how it is written as text, and which integer it
stands for.
-/

namespace BackusNaur

structure Date where
  year : Nat
  month : Nat
  day : Nat
deriving DecidableEq, Repr

/-- A time of day; `micros` counts millionths of a second. -/
structure Time where
  hour : Nat
  minute : Nat
  second : Nat
  micros : Nat
deriving DecidableEq, Repr

inductive Value where
  | null
  | bool (b : Bool)
  | integer (n : Int)
  | float (x : Binary64)
  | text (s : CodePoints)
  | list (items : List Value)
  /-- Keys with values in the order of the document, each key once. -/
  | table (fields : List (CodePoints × Value))
  | date (d : Date)
  | time (t : Time)
  /-- A date and time, and its distance from universal time in minutes, if it has one. -/
  | dateTime (d : Date) (t : Time) (offset : Option Int)
deriving Repr, Inhabited

def padded (width n : Nat) : String :=
  let digits := Nat.toDigits 10 n
  String.ofList (List.replicate (width - digits.length) '0' ++ digits)

def Date.render (d : Date) : String := s!"{padded 4 d.year}-{padded 2 d.month}-{padded 2 d.day}"

def Time.render (t : Time) : String :=
  s!"{padded 2 t.hour}:{padded 2 t.minute}:{padded 2 t.second}"
    ++ if t.micros = 0 then "" else s!".{padded 6 t.micros}"

def renderOffset (minutes : Int) : String :=
  let size := minutes.natAbs
  (if minutes < 0 then "-" else "+") ++ s!"{padded 2 (size / 60)}:{padded 2 (size % 60)}"

def Time.arguments (t : Time) : List Nat :=
  [t.hour, t.minute] ++
    if t.micros ≠ 0 then [t.second, t.micros] else if t.second ≠ 0 then [t.second] else []

def offsetMaker (minutes : Int) : String :=
  if minutes = 0 then "datetime.timezone.utc"
  else
    let days := if minutes < 0 then "days=-1, " else ""
    let seconds := (minutes * 60) % 86400
    s!"datetime.timezone(datetime.timedelta({days}seconds={seconds}))"

namespace Value

def ofTexts (texts : List String) : Value := .list (texts.map fun s : String => text s)

def kind : Value → String
  | null => "NoneType"
  | bool _ => "bool"
  | integer _ => "int"
  | float _ => "float"
  | text _ => "str"
  | list _ => "list"
  | table _ => "dict"
  | date _ => "datetime.date"
  | time _ => "datetime.time"
  | dateTime .. => "datetime.datetime"

/-- Whether a value says something: it is neither absent, false, zero nor empty. -/
def isTruthy : Value → Bool
  | null => false
  | bool b => b
  | integer n => n != 0
  | float x => !x.isZero
  | text s => !s.isEmpty
  | list items => !items.isEmpty
  | table fields => !fields.isEmpty
  | date _ | time _ | dateTime .. => true

def numbers (ns : List Nat) : String := ", ".intercalate (ns.map fun n => s!"{n}")

mutual
/-- A value as it is written inside a list or a table. -/
def shown : Value → String
  | null => "None"
  | bool b => if b then "True" else "False"
  | integer n => s!"{n}"
  | float x => x.text
  | text s => s.quoted
  | list items => "[" ++ ", ".intercalate (shownItems items) ++ "]"
  | table fields => "\x7b" ++ ", ".intercalate (shownFields fields) ++ "\x7d"
  | date d => s!"datetime.date({numbers [d.year, d.month, d.day]})"
  | time t => s!"datetime.time({numbers t.arguments})"
  | dateTime d t offset =>
    let zone := match offset with
      | some minutes => ", tzinfo=" ++ offsetMaker minutes
      | none => ""
    s!"datetime.datetime({numbers ([d.year, d.month, d.day] ++ t.arguments)}{zone})"

def shownItems : List Value → List String
  | [] => []
  | item :: rest => item.shown :: shownItems rest

def shownFields : List (CodePoints × Value) → List String
  | [] => []
  | (key, item) :: rest => (key.quoted ++ ": " ++ item.shown) :: shownFields rest
end

/-- A value as it is written by itself. -/
def plain : Value → CodePoints
  | text s => s
  | date d => d.render
  | time t => t.render
  | dateTime d t offset =>
    let zone := match offset with
      | some minutes => renderOffset minutes
      | none => ""
    s!"{d.render} {t.render}{zone}"
  | value => value.shown

mutual
/-- Whether a number in a value has more digits than a numeral may have. Such a value cannot be
written. -/
def hasLongNumber : Value → Bool
  | integer n => Text.isLongInteger n
  | list items => haveLongNumber items
  | table fields => fieldsHaveLongNumber fields
  | _ => false

def haveLongNumber : List Value → Bool
  | [] => false
  | item :: rest => item.hasLongNumber || haveLongNumber rest

def fieldsHaveLongNumber : List (CodePoints × Value) → Bool
  | [] => false
  | (_, item) :: rest => item.hasLongNumber || fieldsHaveLongNumber rest
end

inductive IntegerFault where
  | wrongKind (kind : String)
  | numeral (text : CodePoints) (fault : Text.NumeralFault)
  | notANumber
  | infinite
deriving DecidableEq, Repr

def IntegerFault.message : IntegerFault → String
  | wrongKind kind =>
    "int() argument must be a string, a bytes-like object or a real number, not " ++ s!"'{kind}'"
  | numeral s fault => fault.message s.quoted
  | notANumber => "cannot convert float NaN to integer"
  | infinite => "cannot convert float infinity to integer"

/-- The integer that a value stands for: a truth value is zero or one, a number loses what lies
behind the point, and a text must write an integer. -/
def toInteger : Value → Except IntegerFault Int
  | bool b => .ok (if b then 1 else 0)
  | integer n => .ok n
  | float .notANumber => .error .notANumber
  | float x =>
    match x.truncate? with
    | some n => .ok n
    | none => .error .infinite
  | text s => (Text.readInt s.text).mapError (.numeral s)
  | value => .error (.wrongKind value.kind)

def find? (key : CodePoints) (fields : List (CodePoints × Value)) : Option Value :=
  List.lookup key fields

def put (key : CodePoints) (value : Value) :
    List (CodePoints × Value) → List (CodePoints × Value)
  | [] => [(key, value)]
  | field :: rest => if field.1 = key then (key, value) :: rest else field :: put key value rest

end Value

end BackusNaur

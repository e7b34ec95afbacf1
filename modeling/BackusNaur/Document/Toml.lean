import BackusNaur.Document.Json

/-!
# Reading TOML

A document is a list of statements: headers, which open a table or add one to a list of tables, and
fields. A key is a path of names. No table is opened twice, and nothing is added to a list or an
inline table once it is written. A text is refused as a whole; where it is wrong is not told.
-/

namespace BackusNaur.Toml

abbrev Fields := List (CodePoints × Value)

abbrev Key := List CodePoints

/-! ## Layout -/

def isSpace (c : Char) : Bool := c == ' ' || c == '\t'

def skipSpace (cs : List Char) : List Char := cs.dropWhile isSpace

def skipSpaceAndLines (cs : List Char) : List Char := cs.dropWhile fun c => isSpace c || c == '\n'

/-- A control character other than the tab; it stands in no comment and in no string. -/
def isControl (c : Char) : Bool := (c.toNat < 0x20 || c.toNat == 0x7f) && c != '\t'

def skipComment? : List Char → Option (List Char)
  | '#' :: rest =>
    if (rest.takeWhile (· != '\n')).any isControl then none else some (rest.dropWhile (· != '\n'))
  | cs => some cs

/-- The text after space, line ends and comments. The first argument bounds the number of
comments. -/
def skipLayout? : Nat → List Char → Option (List Char)
  | 0, _ => none
  | fuel + 1, cs =>
    match skipSpaceAndLines cs with
    | '#' :: rest => do skipLayout? fuel (← skipComment? ('#' :: rest))
    | rest => some rest

/-! ## Strings and keys -/

def untilTriple? (quote : Char) : List Char → Option (List Char × List Char)
  | [] => none
  | c :: rest =>
    if c = quote ∧ rest.take 2 = [quote, quote] then some ([], rest.drop 2)
    else do
      let (inside, after) ← untilTriple? quote rest
      return (c :: inside, after)

/-- One or two quotes right after the closing three belong to the string. -/
def takeExtraQuotes (quote : Char) (inside after : List Char) : List Char × List Char :=
  let extra := (after.take 2).takeWhile (· == quote)
  (inside ++ extra, after.drop extra.length)

def escaped? (c : Char) : Option Char := if c = '/' then none else Json.escaped? c

def hexChar? (n : Nat) (cs : List Char) : Option (List Char × List Char) := do
  if cs.length < n then none
  let code ← Text.hexNumber? (cs.take n)
  if code < 0xd800 ∨ (0xdfff < code ∧ code < 0x110000) then some ([Char.ofNat code], cs.drop n)
  else none

/-- What a backslash writes, and the text after it. In a string of several lines it can hide a line
end and the space around it. -/
def escape? (multiline : Bool) : List Char → Option (List Char × List Char)
  | [] => none
  | 'u' :: rest => hexChar? 4 rest
  | 'U' :: rest => hexChar? 8 rest
  | c :: rest =>
    if multiline && (isSpace c || c == '\n') then
      match if c = '\n' then c :: rest else skipSpace rest with
      | [] => some ([], [])
      | '\n' :: rest => some ([], skipSpaceAndLines rest)
      | _ => none
    else (escaped? c).map fun c => ([c], rest)

/-- The characters of a string after its opening quotes, and the text after its closing ones. The
first argument bounds the number of steps. -/
def basic? (multiline : Bool) : Nat → List Char → Option (List Char × List Char)
  | 0, _ => none
  | _, [] => none
  | fuel + 1, c :: rest =>
    if c = '"' ∧ (!multiline ∨ rest.take 2 = ['"', '"']) then
      some ([], if multiline then rest.drop 2 else rest)
    else if c = '\\' then do
      let (chars, rest) ← escape? multiline rest
      let (inside, after) ← basic? multiline fuel rest
      return (chars ++ inside, after)
    else if isControl c && !(multiline && c == '\n') then none
    else do
      let (inside, after) ← basic? multiline fuel rest
      return (c :: inside, after)

def literal? (cs : List Char) : Option (List Char × List Char) :=
  let inside := cs.takeWhile (· != '\'')
  if inside.any isControl then none
  else match cs.drop inside.length with
    | [] => none
    | _ :: after => some (inside, after)

def dropLineEnd : List Char → List Char
  | '\n' :: rest => rest
  | cs => cs

def string? (cs : List Char) : Option (List Char × List Char) :=
  match cs with
  | '"' :: '"' :: '"' :: rest => do
    let (inside, after) ← basic? true (rest.length + 1) (dropLineEnd rest)
    return takeExtraQuotes '"' inside after
  | '"' :: rest => basic? false (rest.length + 1) rest
  | '\'' :: '\'' :: '\'' :: rest => do
    let (inside, after) ← untilTriple? '\'' (dropLineEnd rest)
    if inside.any fun c => isControl c && c != '\n' then none
    else return takeExtraQuotes '\'' inside after
  | '\'' :: rest => literal? rest
  | _ => none

def isBareKey (c : Char) : Bool := c.isAlphanum || c == '-' || c == '_'

def name? (cs : List Char) : Option (CodePoints × List Char) :=
  match cs with
  | '"' :: rest =>
    (basic? false (rest.length + 1) rest).map fun (s, rest) => (String.ofList s, rest)
  | '\'' :: rest => (literal? rest).map fun (s, rest) => (String.ofList s, rest)
  | _ =>
    let bare := cs.takeWhile isBareKey
    if bare.isEmpty then none else some (String.ofList bare, cs.drop bare.length)

/-- A key, names with dots between them, and the text after it and the space behind it. -/
def key? : Nat → List Char → Option (Key × List Char)
  | 0, _ => none
  | fuel + 1, cs => do
    let (name, rest) ← name? cs
    match skipSpace rest with
    | '.' :: rest =>
      let (key, rest) ← key? fuel (skipSpace rest)
      return (name :: key, rest)
    | rest => return ([name], rest)

/-! ## Numbers, dates and times -/

/-- The digits at the start of a text, two of them perhaps with an underscore between, and the text
after them. -/
def digits (isDigit : Char → Bool) : List Char → List Char × List Char
  | [] => ([], [])
  | c :: '_' :: d :: rest =>
    if isDigit c then
      if isDigit d then
        let (found, rest) := digits isDigit (d :: rest)
        (c :: found, rest)
      else ([c], '_' :: d :: rest)
    else ([], c :: '_' :: d :: rest)
  | c :: rest =>
    if isDigit c then
      let (found, rest) := digits isDigit rest
      (c :: found, rest)
    else ([], c :: rest)

def radix? (cs : List Char) : Option (Value × List Char) := do
  let (base, isDigit, rest) ← match cs with
    | 'x' :: rest => some (16, (fun c => (Text.hexValue? c).isSome), rest)
    | 'o' :: rest => some (8, (fun c => '0' ≤ c && c ≤ '7'), rest)
    | 'b' :: rest => some (2, (fun c => c == '0' || c == '1'), rest)
    | _ => none
  let (found, rest) := digits isDigit rest
  if found.isEmpty then none
  let n := found.foldl (fun n c => base * n + (Text.hexValue? c).getD 0) 0
  return (.integer n, rest)

def fraction? : List Char → Option (List Char × List Char)
  | '.' :: rest =>
    let (found, rest) := digits Char.isDigit rest
    if found.isEmpty then none else some (found, rest)
  | _ => none

def exponent? : List Char → Option (Int × List Char)
  | e :: rest =>
    let (negative, rest) := Text.takeSign rest
    let (found, rest) := digits Char.isDigit rest
    if (e = 'e' ∨ e = 'E') ∧ !found.isEmpty then
      let n : Int := Text.ofDigits (found.map fun c => c.toNat - '0'.toNat)
      some (if negative then -n else n, rest)
    else none
  | [] => none

def decimal? (cs : List Char) : Option (Value × List Char) := do
  let (negative, cs) := Text.takeSign cs
  let (whole, rest) := match cs with
    | '0' :: rest => (['0'], rest)
    | _ => digits Char.isDigit cs
  if whole.isEmpty then none
  let fraction := fraction? rest
  let rest := (fraction.map Prod.snd).getD rest
  let exponent := exponent? rest
  let rest := (exponent.map Prod.snd).getD rest
  if fraction.isNone && exponent.isNone then
    if Text.numeralLimit < whole.length then none
    else
      let n : Int := Text.ofDigits (whole.map fun c => c.toNat - '0'.toNat)
      return (.integer (if negative then -n else n), rest)
  else
    return (Json.decimal negative whole ((fraction.map Prod.fst).getD [])
      ((exponent.map Prod.fst).getD 0), rest)

def number? (cs : List Char) : Option (Value × List Char) :=
  let (negative, unsigned) := Text.takeSign cs
  match unsigned with
  | 'i' :: 'n' :: 'f' :: rest => some (.float (.infinite negative), rest)
  | 'n' :: 'a' :: 'n' :: rest => some (.float .notANumber, rest)
  | _ =>
    match cs with
    | '0' :: rest => (radix? rest).or (decimal? cs)
    | _ => decimal? cs

def fixed? (n low high : Nat) (cs : List Char) : Option (Nat × List Char) :=
  let found := cs.take n
  let value := Text.ofDigits (found.map fun c => c.toNat - '0'.toNat)
  if found.length = n ∧ found.all Char.isDigit ∧ low ≤ value ∧ value ≤ high then
    some (value, cs.drop n)
  else none

def after? (c : Char) : List Char → Option (List Char)
  | d :: rest => if c = d then some rest else none
  | [] => none

def daysIn (year month : Nat) : Nat :=
  if month = 2 then
    if year % 4 = 0 ∧ (year % 100 ≠ 0 ∨ year % 400 = 0) then 29 else 28
  else if month = 4 ∨ month = 6 ∨ month = 9 ∨ month = 11 then 30
  else 31

def date? (cs : List Char) : Option (Date × List Char) := do
  let (year, cs) ← fixed? 4 1 9999 cs
  let (month, cs) ← fixed? 2 1 12 (← after? '-' cs)
  let (day, cs) ← fixed? 2 1 (daysIn year month) (← after? '-' cs)
  return (⟨year, month, day⟩, cs)

/-- A time of day; of the fraction of a second six digits count. -/
def time? (cs : List Char) : Option (Time × List Char) := do
  let (hour, cs) ← fixed? 2 0 23 cs
  let (minute, cs) ← fixed? 2 0 59 (← after? ':' cs)
  let (second, cs) ← fixed? 2 0 59 (← after? ':' cs)
  let fraction := match cs with
    | '.' :: rest => rest.takeWhile Char.isDigit
    | _ => []
  if fraction.isEmpty then return (⟨hour, minute, second, 0⟩, cs)
  else
    let shown := fraction.take 6
    let micros := Text.ofDigits ((shown ++ List.replicate (6 - shown.length) '0').map fun c =>
      c.toNat - '0'.toNat)
    return (⟨hour, minute, second, micros⟩, cs.drop (fraction.length + 1))

def offset? : List Char → Option (Int × List Char)
  | c :: rest =>
    if c = 'Z' ∨ c = 'z' then some (0, rest)
    else if c = '+' ∨ c = '-' then do
      let (hours, rest) ← fixed? 2 0 23 rest
      let (minutes, rest) ← fixed? 2 0 59 (← after? ':' rest)
      let size : Int := hours * 60 + minutes
      return (if c = '-' then -size else size, rest)
    else none
  | [] => none

def dateTime? (cs : List Char) : Option (Value × List Char) := do
  let (date, rest) ← date? cs
  let time := match rest with
    | c :: rest => if c = 'T' ∨ c = 't' ∨ c = ' ' then time? rest else none
    | [] => none
  match time with
  | none => return (.date date, rest)
  | some (time, rest) =>
    match offset? rest with
    | none => return (.dateTime date time none, rest)
    | some (offset, rest) => return (.dateTime date time (some offset), rest)

/-- A value that is no list and no table. What starts like a date or a time is nothing else. -/
def scalar? (cs : List Char) : Option (Value × List Char) :=
  match cs with
  | 't' :: 'r' :: 'u' :: 'e' :: rest => some (.bool true, rest)
  | 'f' :: 'a' :: 'l' :: 's' :: 'e' :: rest => some (.bool false, rest)
  | '"' :: _ | '\'' :: _ => (string? cs).map fun (s, rest) => (.text (String.ofList s), rest)
  | _ =>
    if (cs.take 4).all Char.isDigit && (cs.drop 4).head? == some '-' then dateTime? cs
    else if (cs.take 2).all Char.isDigit && (cs.drop 2).head? == some ':' then
      (time? cs).map fun (time, rest) => (.time time, rest)
    else number? cs

/-! ## Tables -/

def covers (keys : List Key) (key : Key) : Bool := keys.any (·.isPrefixOf key)

/-- Changes the fields of the table at a path, which is made if it is missing. A list of tables on
the path stands for its last table if `throughLists`. -/
def within (throughLists : Bool) (change : Fields → Option Fields) : Key → Fields → Option Fields
  | [], fields => change fields
  | name :: path, fields =>
    match Value.find? name fields with
    | none => do return Value.put name (.table (← within throughLists change path [])) fields
    | some (.table inner) => do
      return Value.put name (.table (← within throughLists change path inner)) fields
    | some (.list items) =>
      match if throughLists then items.getLast? else none with
      | some (.table inner) => do
        let inner ← within throughLists change path inner
        return Value.put name (.list (items.dropLast ++ [.table inner])) fields
      | _ => none
    | some _ => none

def addField (name : CodePoints) (value : Value) (fields : Fields) : Option Fields :=
  if (Value.find? name fields).isSome then none else some (fields ++ [(name, value)])

def splitKey (key : Key) : Key × CodePoints := (key.dropLast, key.getLast?.getD "")

def isContainer : Value → Bool
  | .list _ | .table _ => true
  | _ => false

mutual
/-- A value at the start of a text, and the text after it. The first argument bounds the number of
steps; twice the length of the text is enough. -/
def value? : Nat → List Char → Option (Value × List Char)
  | 0, _ => none
  | fuel + 1, cs =>
    match cs with
    | '[' :: rest => do
      let (items, rest) ← items? fuel (← skipLayout? (rest.length + 1) rest)
      return (.list items, rest)
    | '\x7b' :: rest =>
      match skipSpace rest with
      | '\x7d' :: rest => some (.table [], rest)
      | rest => do
        let (fields, rest) ← inline? fuel [] [] rest
        return (.table fields, rest)
    | _ => scalar? cs

def items? : Nat → List Char → Option (List Value × List Char)
  | 0, _ => none
  | fuel + 1, cs =>
    match cs with
    | ']' :: rest => some ([], rest)
    | _ => do
      let (item, rest) ← value? fuel cs
      match ← skipLayout? (rest.length + 1) rest with
      | ']' :: rest => return ([item], rest)
      | ',' :: rest =>
        let (items, rest) ← items? fuel (← skipLayout? (rest.length + 1) rest)
        return (item :: items, rest)
      | _ => none

/-- The fields of an inline table up to its closing brace, after the fields `known`, in which
nothing is added below the keys `frozen`. -/
def inline? : Nat → Fields → List Key → List Char → Option (Fields × List Char)
  | 0, _, _, _ => none
  | fuel + 1, known, frozen, cs => do
    let (key, rest) ← key? (cs.length + 1) cs
    let (value, rest) ← value? fuel (skipSpace (← after? '=' rest))
    if covers frozen key then none
    let (path, name) := splitKey key
    let known ← within false (addField name value) path known
    match skipSpace rest with
    | '\x7d' :: rest => return (known, rest)
    | ',' :: rest =>
      inline? fuel known (if isContainer value then key :: frozen else frozen) (skipSpace rest)
    | _ => none
end

/-! ## Documents -/

structure Document where
  fields : Fields := []
  /-- The table that fields are added to. -/
  header : Key := []
  /-- Tables that no header opens and no dotted key passes through any more. -/
  opened : List Key := []
  /-- Lists and inline tables, to which nothing is added. -/
  frozen : List Key := []
  /-- Tables on the paths of dotted keys since the last header. -/
  passed : List Key := []

namespace Document

def closePassed (d : Document) : Document := { d with opened := d.passed ++ d.opened, passed := [] }

def openTable (d : Document) (key : Key) : Option Document :=
  let d := d.closePassed
  if d.opened.contains key || covers d.frozen key then none
  else do
    let fields ← within true some key d.fields
    return { d with fields, header := key, opened := key :: d.opened }

/-- Adds a table to the list of tables of a header. What was said of the tables below the last one
no longer counts. -/
def openItem (d : Document) (key : Key) : Option Document :=
  let d := d.closePassed
  let (path, name) := splitKey key
  let add (fields : Fields) : Option Fields :=
    match Value.find? name fields with
    | none => some (fields ++ [(name, .list [.table []])])
    | some (.list items) => some (Value.put name (.list (items ++ [.table []])) fields)
    | some _ => none
  let isBelow (other : Key) : Bool := key.isPrefixOf other
  if covers d.frozen key then none
  else do
    let fields ← within true add path d.fields
    return { d with
      fields, header := key,
      opened := key :: d.opened.filter (!isBelow ·), frozen := d.frozen.filter (!isBelow ·) }

def assign (d : Document) (key : Key) (value : Value) : Option Document :=
  let (path, name) := splitKey key
  let passing := (List.range path.length).map fun i => d.header ++ key.take (i + 1)
  if passing.any d.opened.contains || covers d.frozen (d.header ++ path) then none
  else do
    let fields ← within true (addField name value) (d.header ++ path) d.fields
    return { d with
      fields, passed := passing ++ d.passed,
      frozen := if isContainer value then (d.header ++ key) :: d.frozen else d.frozen }

end Document

def statement? (d : Document) (cs : List Char) : Option (Document × List Char) :=
  match cs with
  | '#' :: _ => some (d, cs)
  | '[' :: '[' :: rest => do
    let (key, rest) ← key? (rest.length + 1) (skipSpace rest)
    let d ← d.openItem key
    return (d, ← after? ']' (← after? ']' rest))
  | '[' :: rest => do
    let (key, rest) ← key? (rest.length + 1) (skipSpace rest)
    let d ← d.openTable key
    return (d, ← after? ']' rest)
  | _ => do
    let (key, rest) ← key? (cs.length + 1) cs
    let (value, rest) ← value? (2 * cs.length + 2) (skipSpace (← after? '=' rest))
    return (← d.assign key value, rest)

/-- What the statements of a text make of a document. The first argument bounds their number. -/
def statements? : Nat → Document → List Char → Option Document
  | 0, _, _ => none
  | fuel + 1, d, cs =>
    match skipSpace cs with
    | [] => some d
    | '\n' :: rest => statements? fuel d rest
    | cs => do
      let (d, rest) ← statement? d cs
      match ← skipComment? (skipSpace rest) with
      | [] => return d
      | '\n' :: rest => statements? fuel d rest
      | _ => none

/-- The text with every carriage return before a line feed left out. -/
def joinLineEnds : List Char → List Char
  | '\r' :: '\n' :: rest => '\n' :: joinLineEnds rest
  | c :: rest => c :: joinLineEnds rest
  | [] => []

def read? (text : List Char) : Option Value := do
  let text := joinLineEnds text
  let d ← statements? (text.length + 1) {} text
  return .table d.fields

end BackusNaur.Toml

import BackusNaur.Pieces
import BackusNaur.Text.CodePoints

/-!
# Encodings

Files are decoded by the name of an encoding, for which a registry has a decoder or not. Which names
there are is up to the registry. The one here knows UTF-8 with or without a byte order mark, UTF-16
behind one or in a known order, Latin-1 and ASCII. Decoding stops at the first bytes that stand for
nothing and tells where they are.
-/

namespace BackusNaur

inductive Encoding where
  | utf8
  | utf8Marked
  | utf16
  | utf16Little
  | utf16Big
  | latin1
  | ascii
deriving DecidableEq, Repr

inductive DecodeFault where
  /-- Bytes `first` to `last` stand for nothing; `byte` is the first of them. -/
  | invalid (codec : String) (byte : UInt8) (first last : Nat) (reason : String)
  /-- The text as a whole is not in the encoding. -/
  | unsuitable (reason : String)
deriving DecidableEq, Repr

def DecodeFault.message : DecodeFault → String
  | invalid codec byte first last reason =>
    let bytes := if first = last then
        "byte 0x" ++ String.ofList (Text.hex 2 byte.toNat) ++ s!" in position {first}"
      else s!"bytes in position {first}-{last}"
    s!"'{codec}' codec can't decode {bytes}: {reason}"
  | unsuitable reason => reason

inductive LookupFault where
  | unknown (name : String)
  /-- The name of an encoding that turns bytes into bytes. -/
  | binary (name : String)
deriving DecidableEq, Repr

def LookupFault.message : LookupFault → String
  | unknown name => s!"unknown encoding: {name}"
  | binary name =>
    s!"'{name}' is not a text encoding; use codecs.open() to handle arbitrary codecs"

inductive NameFault where
  /-- Code points `first` to `last` are halves of surrogate pairs; `half` is the first of them. -/
  | halves (first last half : Nat)
  | nul
deriving DecidableEq, Repr

def NameFault.message : NameFault → String
  | halves first last half =>
    let characters := if first = last then
        "character " ++ CodePoints.quoted ⟨[half]⟩ ++ s!" in position {first}"
      else s!"characters in position {first}-{last}"
    s!"'utf-8' codec can't encode {characters}: surrogates not allowed"
  | nul => "embedded null character"

namespace Encoding

/-- The encodings by the plain spelling of their names: one that only dashes and the like may
change, and those in which dots may stand for underscores too. -/
def names : List (Encoding × String × List String) :=
  [(utf8, "utf_8", ["u8", "utf", "utf8", "utf8_ucs2", "utf8_ucs4", "cp65001"]),
    (utf8Marked, "utf_8_sig", []),
    (utf16, "utf_16", ["u16", "utf16"]),
    (utf16Little, "utf_16_le", ["unicodelittleunmarked", "utf_16le"]),
    (utf16Big, "utf_16_be", ["unicodebigunmarked", "utf_16be"]),
    (latin1, "latin_1", ["8859", "cp819", "csisolatin1", "ibm819", "iso8859", "iso8859_1",
      "iso_8859_1", "iso_8859_1_1987", "iso_ir_100", "l1", "latin", "latin1"]),
    (ascii, "ascii", ["646", "ansi_x3.4_1968", "ansi_x3_4_1968", "ansi_x3.4_1986", "cp367",
      "csascii", "ibm367", "iso646_us", "iso_646.irv_1991", "iso_ir_6", "us", "us_ascii"])]

def binaryNames : List (String × List String) :=
  [("base64_codec", ["base64", "base_64"]), ("bz2_codec", ["bz2"]), ("hex_codec", ["hex"]),
    ("quopri_codec", ["quopri", "quoted_printable", "quotedprintable"]), ("rot_13", ["rot13"]),
    ("uu_codec", ["uu"]), ("zlib_codec", ["zip", "zlib"])]

/-- The plain spelling of a name: its stretches of ASCII letters, digits and dots, the letters
small, with one underscore between two of them. -/
def plainName (name : String) : String :=
  let isJoint (c : Char) : Bool := !(c.isAlphanum || c == '.')
  let parts := (pieces isJoint name.toList).filter (!·.isEmpty)
  "_".intercalate (parts.map fun part => String.ofList (part.map Char.toLower))

def isNamed (plain name : String) (others : List String) : Bool :=
  plain == name || others.contains plain
    || others.contains (plain.map fun c => if c == '.' then '_' else c)

def ofName (name : String) : Except LookupFault Encoding :=
  let plain := plainName name
  if name = "locale" then .ok utf8
  else match names.find? fun (_, spelling, others) => isNamed plain spelling others with
    | some (encoding, _) => .ok encoding
    | none =>
      .error <| if binaryNames.any fun (spelling, others) => isNamed plain spelling others then
        .binary name else .unknown name

/-- The stretch of halves at the first half of a pair in a text: where it starts and ends, and the
half. -/
def halves? (name : CodePoints) : Option (Nat × Nat × Nat) :=
  let before := name.points.takeWhile (!CodePoints.isHalf ·)
  match name.points.drop before.length with
  | [] => none
  | half :: rest =>
    let others := rest.takeWhile CodePoints.isHalf
    some (before.length, before.length + others.length, half)

/-- The name that code points write. No name holds half a surrogate pair or the character NUL. -/
def nameOf (name : CodePoints) : Except NameFault String :=
  match halves? name with
  | some (first, last, half) => .error (.halves first last half)
  | none => if name.points.contains 0 then .error .nul else .ok name.text

/-- A UTF-8 character that is not complete: where it started, its first byte, the bits so far, how
many bytes are still to come, and the bounds of the next one. -/
structure Pending where
  start : Nat
  lead : UInt8
  bits : Nat
  missing : Nat
  low : UInt8 := 0x80
  high : UInt8 := 0xbf
deriving DecidableEq, Repr

/-- What the first byte of a longer UTF-8 character at `pos` says of the others. Bounds of the
second byte rule out longer forms than needed, surrogates and code points past the last. -/
def Pending.ofLead? (pos : Nat) (b : UInt8) : Option Pending :=
  let n := b.toNat
  if n < 0xc2 then none
  else if n < 0xe0 then some { start := pos, lead := b, bits := n - 0xc0, missing := 1 }
  else if n < 0xf0 then
    let p : Pending := { start := pos, lead := b, bits := n - 0xe0, missing := 2 }
    some <|
      if n = 0xe0 then { p with low := 0xa0 }
      else if n = 0xed then { p with high := 0x9f }
      else p
  else if n < 0xf5 then
    let p : Pending := { start := pos, lead := b, bits := n - 0xf0, missing := 3 }
    some <|
      if n = 0xf0 then { p with low := 0x90 }
      else if n = 0xf4 then { p with high := 0x8f }
      else p
  else none

/-- Decodes UTF-8 from position `pos` on, perhaps in the middle of a character. -/
def decodeUtf8 (pos : Nat) (pending : Option Pending) : List UInt8 → Except DecodeFault (List Char)
  | [] =>
    match pending with
    | none => .ok []
    | some p => .error (.invalid "utf-8" p.lead p.start (pos - 1) "unexpected end of data")
  | b :: rest =>
    match pending with
    | none =>
      if b < 0x80 then do return Char.ofNat b.toNat :: (← decodeUtf8 (pos + 1) none rest)
      else match Pending.ofLead? pos b with
        | none => .error (.invalid "utf-8" b pos pos "invalid start byte")
        | some p => decodeUtf8 (pos + 1) (some p) rest
    | some p =>
      if b < p.low ∨ p.high < b then
        .error (.invalid "utf-8" p.lead p.start (pos - 1) "invalid continuation byte")
      else
        let bits := p.bits * 64 + (b.toNat - 0x80)
        if p.missing ≤ 1 then do return Char.ofNat bits :: (← decodeUtf8 (pos + 1) none rest)
        else decodeUtf8 (pos + 1)
          (some { start := p.start, lead := p.lead, bits, missing := p.missing - 1 }) rest

/-- The bytes of UTF-8 without a byte order mark at the start. A mark that is not complete counts
as one if nothing follows. -/
def dropMark : List UInt8 → List UInt8
  | [0xef] | [0xef, 0xbb] => []
  | 0xef :: 0xbb :: 0xbf :: rest => rest
  | bytes => bytes

def decodeAscii (pos : Nat) : List UInt8 → Except DecodeFault (List Char)
  | [] => .ok []
  | b :: rest =>
    if b < 0x80 then do return Char.ofNat b.toNat :: (← decodeAscii (pos + 1) rest)
    else .error (.invalid "ascii" b pos pos "ordinal not in range(128)")

/-- Decodes UTF-16 from position `pos` on, the higher byte of a unit first if `big`. -/
def decodeUnits (big : Bool) (pos : Nat) : List UInt8 → Except DecodeFault (List Char)
  | [] => .ok []
  | [b] => .error (.invalid codec b pos pos "truncated data")
  | a :: b :: rest =>
    let unit := unitOf a b
    if unit < 0xd800 ∨ 0xdfff < unit then do
      return Char.ofNat unit :: (← decodeUnits big (pos + 2) rest)
    else if 0xdbff < unit then .error (.invalid codec a pos (pos + 1) "illegal encoding")
    else match rest with
      | c :: d :: rest =>
        let low := unitOf c d
        if low < 0xdc00 ∨ 0xdfff < low then
          .error (.invalid codec a pos (pos + 1) "illegal UTF-16 surrogate")
        else do
          return Char.ofNat (0x10000 + (unit - 0xd800) * 0x400 + (low - 0xdc00))
            :: (← decodeUnits big (pos + 4) rest)
      | _ => .error (.invalid codec a pos (pos + 1 + rest.length) "unexpected end of data")
where
  codec : String := if big then "utf-16-be" else "utf-16-le"
  unitOf (a b : UInt8) : Nat := if big then a.toNat * 256 + b.toNat else b.toNat * 256 + a.toNat

def decodeUtf16 : List UInt8 → Except DecodeFault (List Char)
  | 0xff :: 0xfe :: rest => decodeUnits false 2 rest
  | 0xfe :: 0xff :: rest => decodeUnits true 2 rest
  | bytes => do
    let chars ← decodeUnits false 0 bytes
    if chars.isEmpty then return []
    else .error (.unsuitable "UTF-16 stream does not start with BOM")

def decode (encoding : Encoding) (bytes : List UInt8) : Except DecodeFault (List Char) :=
  match encoding with
  | utf8 => decodeUtf8 0 none bytes
  | utf8Marked => decodeUtf8 0 none (dropMark bytes)
  | utf16 => decodeUtf16 bytes
  | utf16Little => decodeUnits false 0 bytes
  | utf16Big => decodeUnits true 0 bytes
  | latin1 => .ok (bytes.map fun b => Char.ofNat b.toNat)
  | ascii => decodeAscii 0 bytes

end Encoding

abbrev Codecs := String → Except LookupFault (List UInt8 → Except DecodeFault (List Char))

def Codecs.basic : Codecs := fun name => return (← Encoding.ofName name).decode

end BackusNaur

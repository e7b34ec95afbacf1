import BackusNaur.Text.Quoted

/-!
# Code points

The escapes of a document can write one half of a surrogate pair without the other, and no string
holds that. A list of code points holds every text that a document can write.
-/

namespace BackusNaur

/-- A text in which halves of surrogate pairs may stand by themselves. -/
structure CodePoints where
  points : List Nat
deriving DecidableEq, Repr, Inhabited

namespace CodePoints

def isHalf (n : Nat) : Bool := 0xd800 ≤ n && n < 0xe000

def ofString (s : String) : CodePoints := ⟨s.toList.map Char.toNat⟩

instance : Coe String CodePoints := ⟨ofString⟩

def toChar (n : Nat) : Char := if isHalf n then '\ufffd' else Char.ofNat n

def text (t : CodePoints) : String := String.ofList (t.points.map toChar)

def isEmpty (t : CodePoints) : Bool := t.points.isEmpty

theorem isHalf_toNat (c : Char) : isHalf c.toNat = false := by
  have valid := c.valid
  simp only [UInt32.isValidChar, Nat.isValidChar] at valid
  simp only [isHalf, Char.toNat, Bool.and_eq_false_iff, decide_eq_false_iff_not]
  omega

theorem toChar_toNat (c : Char) : toChar c.toNat = c := by simp [toChar, isHalf_toNat]

theorem text_ofString (s : String) : (ofString s).text = s := by
  simp [ofString, text, Function.comp_def, toChar_toNat]

/-- One code point between quotes `quote`. -/
def escape (quote : Char) (n : Nat) : List Char :=
  if isHalf n then '\\' :: 'u' :: Text.hex 4 n else Text.escape quote (toChar n)

def quoted (t : CodePoints) : String :=
  let quote := Text.quoteFor t.text.toList
  String.ofList (quote :: t.points.flatMap (escape quote) ++ [quote])

end CodePoints

end BackusNaur

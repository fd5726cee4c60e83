/-!
# Texts

A text is a run of code points. Most of them are characters. A document can also spell half of a
surrogate pair that stands alone; it is no character, but it is kept, so that two texts are the same
only if they agree on it.
-/

namespace Ostinato

/-- A code point: a character, or half of a surrogate pair, by its number among the halves. -/
inductive CodePoint
  | char (c : Char)
  | half (n : Fin 0x800)
  deriving DecidableEq, Repr

namespace CodePoint

/-- The least code point that is half of a surrogate pair. -/
def firstHalf : Nat := 0xd800

/-- The character that a code point is. -/
def char? : CodePoint → Option Char
  | char c => some c
  | half _ => none

/-- A code point as a character; the replacement character stands for a half. -/
def toChar : CodePoint → Char
  | char c => c
  | half _ => '\ufffd'

end CodePoint

/-- A text. -/
structure Text where
  points : List CodePoint
  deriving DecidableEq, Repr, Inhabited

namespace Text

/-- The text of some characters. -/
def ofChars (cs : List Char) : Text := ⟨cs.map .char⟩

/-- The text of a string. -/
def ofString (s : String) : Text := ofChars s.toList

instance : Coe String Text := ⟨ofString⟩

/-- The characters of a text, if it holds nothing else. -/
def chars? (t : Text) : Option (List Char) := t.points.mapM CodePoint.char?

/-- A text as characters. -/
def chars (t : Text) : List Char := t.points.map CodePoint.toChar

/-- A text as a string. -/
def string (t : Text) : String := String.ofList t.chars

/-- A text that is made of characters has these characters. -/
@[simp]
theorem chars_ofChars (cs : List Char) : (ofChars cs).chars = cs := by
  induction cs with
  | nil => rfl
  | cons c cs ih => simpa [chars, ofChars, CodePoint.toChar] using ih

end Text

end Ostinato

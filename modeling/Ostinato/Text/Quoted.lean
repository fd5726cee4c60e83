import Ostinato.Text.Basic
import Ostinato.Text.Printable

/-!
# Quoted text

A text is quoted with apostrophes, or with double quotes when it holds an apostrophe and no double
quote. Inside, the quote and the backslash are escaped, and so is every code point that is not
printable: by a letter for tab, line feed and carriage return, else by two, four or eight
hexadecimal digits.
-/

namespace Ostinato.Text

/-- The apostrophe. -/
def apostrophe : Char := '\x27'

/-- The double quote. -/
def doubleQuote : Char := '\x22'

/-- A number in lower-case hexadecimal, with leading zeros up to a width. -/
def hexChars (width n : Nat) : List Char :=
  let digits := Nat.toDigits 16 n
  List.replicate (width - digits.length) '0' ++ digits

/-- A code point by its number. -/
def codeEscape (n : Nat) : List Char :=
  if n ≤ 0xff then '\\' :: 'x' :: hexChars 2 n
  else if n ≤ 0xffff then '\\' :: 'u' :: hexChars 4 n
  else '\\' :: 'U' :: hexChars 8 n

/-- A character inside quotes. -/
def quotedChar (quote c : Char) : List Char :=
  if c = quote ∨ c = '\\' then ['\\', c]
  else if c = '\t' then ['\\', 't']
  else if c = '\n' then ['\\', 'n']
  else if c = '\r' then ['\\', 'r']
  else if isPrintable c then [c]
  else codeEscape c.toNat

/-- A code point inside quotes. -/
def quotedPoint (quote : Char) : CodePoint → List Char
  | .char c => quotedChar quote c
  | .half n => codeEscape (CodePoint.firstHalf + n)

/-- The quote that surrounds some characters. -/
def quoteFor (cs : List Char) : Char :=
  if apostrophe ∈ cs ∧ doubleQuote ∉ cs then doubleQuote else apostrophe

/-- A text in quotes. -/
def quotedChars (t : Text) : List Char :=
  let quote := quoteFor t.chars
  quote :: (t.points.flatMap (quotedPoint quote) ++ [quote])

/-- A text in quotes. -/
def quoted (t : Text) : String := String.ofList t.quotedChars

/-- A byte inside quotes. -/
def quotedByte (quote : Char) (b : UInt8) : List Char :=
  if b < 0x7f then quotedChar quote (Char.ofNat b.toNat)
  else '\\' :: 'x' :: hexChars 2 b.toNat

/-- Bytes in quotes, after the letter `b`. -/
def quotedBytes (bs : List UInt8) : List Char :=
  let quote := quoteFor (bs.map fun b => Char.ofNat b.toNat)
  'b' :: quote :: (bs.flatMap (quotedByte quote) ++ [quote])

end Ostinato.Text

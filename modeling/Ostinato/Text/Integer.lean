import Ostinato.Text.Digit

/-!
# Integers in text

Two readings. A *literal* may have blanks around it, a sign, a radix mark such as `0x`, single
underscores between its digits, and digits of any script. A *loose* integer has ASCII digits only,
but may start with zeros and end in a point and zeros.
-/

namespace Ostinato.Text

/-- The most digits that a decimal integer may have in text. -/
def maxDigits : Nat := 4300

/-- The sign at the front of a text, if any, and the rest. -/
def splitSign : List Char → Bool × List Char
  | '-' :: cs => (true, cs)
  | '+' :: cs => (false, cs)
  | cs => (false, cs)

/-- Digits with single underscores between them. -/
def separatedDigits (digit? : Char → Option Nat) : List Char → Option (List Nat)
  | [] => none
  | [c] => (digit? c).map fun d => [d]
  | c :: '_' :: rest =>
    match digit? c, separatedDigits digit? rest with
    | some d, some ds => some (d :: ds)
    | _, _ => none
  | c :: next :: rest =>
    match digit? c, separatedDigits digit? (next :: rest) with
    | some d, some ds => some (d :: ds)
    | _, _ => none

/-- The number with the given digits, the most significant one first. -/
def ofDigits (radix : Nat) (digits : List Nat) : Nat :=
  digits.foldl (fun n d => n * radix + d) 0

/-- An ASCII digit. -/
def asciiDigit? (c : Char) : Option Nat :=
  if c.isDigit then some (c.toNat - 0x30) else none

/-- An ASCII letter as a digit above nine. -/
def letterDigit? (c : Char) : Option Nat :=
  if c.isLower then some (c.toNat - 0x61 + 10)
  else if c.isUpper then some (c.toNat - 0x41 + 10)
  else none

/-- A digit of any script, or a letter, below the radix. -/
def digitBelow? (radix : Nat) (c : Char) : Option Nat :=
  match (digitValue? c).orElse fun _ => letterDigit? c with
  | some d => if d < radix then some d else none
  | none => none

/-- The letter that marks a radix after a zero. -/
def radixMark? : Nat → Option Char
  | 2 => some 'b'
  | 8 => some 'o'
  | 16 => some 'x'
  | _ => none

/-- Drops the mark of the radix, if it is there. -/
def dropRadixMark (radix : Nat) (cs : List Char) : List Char :=
  match radixMark? radix, cs with
  | some mark, '0' :: c :: rest =>
    if c.toLower = mark then (if rest.head? = some '_' then rest.drop 1 else rest) else cs
  | _, _ => cs

/-- Reads a literal. A decimal one may not have more than `maxDigits` digits. -/
def readLiteral? (radix : Nat) (cs : List Char) : Option Int :=
  let (negative, cs) := splitSign (trim isBlank cs)
  match separatedDigits (digitBelow? radix) (dropRadixMark radix cs) with
  | none => none
  | some digits =>
    if radix = 10 ∧ maxDigits < digits.length then none
    else
      let n := ofDigits radix digits
      some (if negative then -n else n)

/-! ## Loose integers

A loose integer is tidied before it is read: blanks around it, a plus sign, leading zeros, a
fraction of zeros and single underscores go. Leading zeros go together with the underscores among
them, up to the first other digit or to a minus sign. -/

/-- How the reading of a loose integer can fail. -/
inductive LooseFault
  | unreadable
  | tooLong
  deriving DecidableEq, Repr

/-- What follows a leading zero: the text from its first other digit or minus sign on, or from its
last zero on if there is none. `last` is the character before. -/
def afterZero (last : Char) : List Char → Option (List Char)
  | [] => some [last]
  | c :: cs =>
    if c = '0' ∨ c = '_' then afterZero c cs
    else if c.isDigit ∨ c = '-' then some (c :: cs)
    else if c = '.' then some (last :: c :: cs)
    else none

/-- Drops leading zeros; what starts with neither a digit nor a minus sign is no number. -/
def dropZeros : List Char → Option (List Char)
  | [] => none
  | c :: cs =>
    if c = '0' then afterZero c cs
    else if c.isDigit ∨ c = '-' then some (c :: cs)
    else none

/-- Drops a point followed by zeros only, of which there is at least one. -/
def dropZeroFraction (cs : List Char) : List Char :=
  match cs.dropWhile (· ≠ '.') with
  | '.' :: '0' :: zeros => if zeros.all (· = '0') then cs.takeWhile (· ≠ '.') else cs
  | _ => cs

/-- Whether two underscores stand side by side. -/
def hasDoubleUnderscore : List Char → Bool
  | '_' :: '_' :: _ => true
  | _ :: cs => hasDoubleUnderscore cs
  | [] => false

/-- Drops underscores, if each stands alone and none at either end. -/
def dropUnderscores (cs : List Char) : List Char :=
  if cs.head? = some '_' ∨ cs.getLast? = some '_' ∨ hasDoubleUnderscore cs then cs
  else cs.filter (· ≠ '_')

/-- Tidies an integer. -/
def tidied (cs : List Char) : Option (List Char) :=
  let (negative, cs) := splitSign (trim isWhiteSpace cs)
  (dropZeros cs).map fun cs =>
    let cs := dropUnderscores (dropZeroFraction cs)
    if negative then '-' :: cs else cs

/-- Reads an integer without any ornament: a minus sign, and digits that do not start with a zero
unless there is only one. -/
def readBare? (cs : List Char) : Option Int :=
  let negative := cs.head? = some '-'
  let digits := if negative then cs.drop 1 else cs
  if digits.isEmpty ∨ !digits.all Char.isDigit ∨ maxDigits < digits.length ∨
      (digits.head? = some '0' ∧ digits ≠ ['0']) then none
  else
    let n := ofDigits 10 (digits.filterMap asciiDigit?)
    some (if negative then -n else n)

/-- Whether a text starts, after at most a minus sign, with more digits than are read, none of which
needs tidying. -/
def startsTooLong (cs : List Char) : Bool :=
  let digits := (if cs.head? = some '-' then cs.drop 1 else cs).takeWhile Char.isDigit
  digits.head? ≠ some '0' && maxDigits < digits.length

/-- Reads a loose integer. -/
def readLoose (cs : List Char) : Except LooseFault Int :=
  if startsTooLong cs then .error .tooLong
  else
    match (tidied cs).bind readBare? with
    | some n => .ok n
    | none => .error .unreadable

end Ostinato.Text

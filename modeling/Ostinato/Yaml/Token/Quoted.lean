import Ostinato.Yaml.Token.Name

/-!
# Scalars in quotes

A line break in a quoted scalar is folded into a space, and spaces around it are dropped; each
further break stays. A double-quoted scalar has escapes, a single-quoted one only doubles its quote.
Each function gives, with what it has read, the number of characters that it has taken.
-/

namespace Ostinato.Yaml

/-- The line breaks and blanks between two lines of a quoted scalar: the breaks are kept, the blanks
dropped. `lineStart` tells whether the text stands at the start of a line, where the mark of a
document's start or end is an error. -/
def lexQuotedBreaks : Bool → List Char → Except Fault (List Char × Nat)
  | _, [] => .ok ([], 0)
  | lineStart, c :: cs =>
    if lineStart && atSeparator (c :: cs) then refuse "a document ends inside quotes"
    else if isSpace c then do
      let (breaks, n) ← lexQuotedBreaks false cs
      return (breaks, n + 1)
    else if isBreak c then do
      let (breaks, n) ← lexQuotedBreaks true cs
      return (breakChar c :: breaks, n + 1)
    else .ok ([], 0)

/-- A run of blanks in a quoted scalar, with the line breaks in it folded. -/
def lexQuotedSpaces (cs : List Char) : Except Fault (List Char × Nat) :=
  let spaces := cs.takeWhile isSpace
  match cs.dropWhile isSpace with
  | [] => .error .ended
  | c :: rest =>
    if isBreak c then do
      let (breaks, n) ← lexQuotedBreaks true rest
      let joint :=
        if breakChar c ≠ '\n' then [breakChar c] else if breaks.isEmpty then [' '] else []
      return (joint ++ breaks, spaces.length + 1 + n)
    else .ok (spaces, spaces.length)

/-- The character that an escape letter stands for. -/
def escapeChar? (c : Char) : Option Char :=
  ([('0', '\x00'), ('a', '\x07'), ('b', '\x08'), ('t', '\x09'), ('\t', '\x09'), ('n', '\x0a'),
    ('v', '\x0b'), ('f', '\x0c'), ('r', '\x0d'), ('e', '\x1b'), (' ', ' '), ('\x22', '\x22'),
    ('\\', '\\'), ('/', '/'), ('N', '\u0085'), ('_', '\u00a0'), ('L', '\u2028'),
    ('P', '\u2029')] : List (Char × Char)).lookup c

/-- The number of hexadecimal digits that an escape letter asks for. -/
def escapeWidth? (c : Char) : Option Nat :=
  ([('x', 2), ('u', 4), ('U', 8)] : List (Char × Nat)).lookup c

/-- The code point with a number. -/
def codePoint (n : Nat) : Except Fault CodePoint :=
  if 0x7fffffff < n then .error (.scalar .tooLarge)
  else if 0x10ffff < n then .error (.scalar .notAValue)
  else if h : CodePoint.firstHalf ≤ n ∧ n - CodePoint.firstHalf < 0x800 then
    .ok (.half ⟨n - CodePoint.firstHalf, h.2⟩)
  else .ok (.char (Char.ofNat n))

/-- An escape, after its backslash. -/
def lexEscape : List Char → Except Fault (List CodePoint × Nat)
  | [] => .error .ended
  | c :: rest =>
    match escapeChar? c, escapeWidth? c with
    | some e, _ => .ok ([.char e], 1)
    | none, some width =>
      let digits := (rest.take width).filterMap hexDigit?
      if digits.length = width then do
        let e ← codePoint (Text.ofDigits 16 digits)
        return ([e], width + 1)
      else if (rest.take width).all isHexDigit then .error .ended
      else refuse "an escape has too few hexadecimal digits"
    | none, none =>
      if isBreak c then do
        let (breaks, n) ← lexQuotedBreaks true rest
        return (breaks.map .char, n + 1)
      else refuse "an escape has no meaning"

/-- The text of a quoted scalar up to its closing quote, which is taken too; each step takes at
least one character. -/
def lexQuotedText (double : Bool) : Nat → List Char → Except Fault (List CodePoint × Nat)
  | _, [] => .error .ended
  | 0, _ => .error .ended
  | fuel + 1, c :: rest =>
    if c = '\x27' && !double then
      match rest with
      | '\x27' :: rest => do
        let (more, n) ← lexQuotedText double fuel rest
        return (.char '\x27' :: more, n + 2)
      | _ => .ok ([], 1)
    else if c = '\x22' && double then .ok ([], 1)
    else if c = '\\' && double then do
      let (piece, m) ← lexEscape rest
      let (more, n) ← lexQuotedText double fuel (rest.drop m)
      return (piece ++ more, m + 1 + n)
    else if isSpace c || isBreak c then do
      let (piece, m) ← lexQuotedSpaces (c :: rest)
      let (more, n) ← lexQuotedText double fuel ((c :: rest).drop m)
      return (piece.map .char ++ more, m + n)
    else do
      let (more, n) ← lexQuotedText double fuel rest
      return (.char c :: more, n + 1)

/-- A quoted scalar, after its opening quote, in a text with at most `size` characters. -/
def lexQuoted (double : Bool) (size : Nat) (cs : List Char) : Except Fault (Token × Nat) := do
  let (points, n) ← lexQuotedText double size cs
  return (.scalar ⟨points⟩ false, n)

end Ostinato.Yaml

import Ostinato.Yaml.Fault

/-!
# Places in a text

The characters that a document may hold, the classes of characters that its grammar is built on,
and a cursor that knows its line and column.
-/

namespace Ostinato.Yaml

/-- Whether a document may hold a character: all but control characters other than tab, line feed,
carriage return and next line, and the two non-characters at the end of the first plane. -/
def isAllowed (c : Char) : Bool :=
  let n := c.toNat
  n = 0x9 || n = 0xa || n = 0xd || (0x20 ≤ n && n ≤ 0x7e) || n = 0x85 ||
    (0xa0 ≤ n && n ≤ 0xfffd) || 0x10000 ≤ n

/-- A line break. -/
def isBreak (c : Char) : Bool :=
  c = '\n' || c = '\u0085' || c = '\u2028' || c = '\u2029'

/-- A space or a tab. -/
def isSpace (c : Char) : Bool := c = ' ' || c = '\t'

/-- A line break as it stands in a value: the line and paragraph separators stay, all others are
line feeds. -/
def breakChar (c : Char) : Char :=
  if c = '\u2028' ∨ c = '\u2029' then c else '\n'

/-- An ASCII letter or digit, a hyphen or an underscore. -/
def isWordChar (c : Char) : Bool := c.isAlphanum || c = '-' || c = '_'

/-- A hexadecimal digit. -/
def isHexDigit (c : Char) : Bool :=
  c.isDigit || ('a' ≤ c && c ≤ 'f') || ('A' ≤ c && c ≤ 'F')

/-- Whether a text is at its end or goes on with a character of a class. -/
def endsOr (p : Char → Bool) : List Char → Bool
  | [] => true
  | c :: _ => p c

/-- At the end, a space, a tab or a break. -/
def atBlank (cs : List Char) : Bool := endsOr (fun c => isSpace c || isBreak c) cs

/-- At the end, a space or a break: where a tab would be an error. -/
def atSpaceOrBreak (cs : List Char) : Bool := endsOr (fun c => c = ' ' || isBreak c) cs

/-- At the end or a break. -/
def atBreak (cs : List Char) : Bool := endsOr isBreak cs

/-- Whether a text, at the start of a line, goes on with three marks and a blank. -/
def atMarks (mark : Char) : List Char → Bool
  | a :: b :: c :: rest => a = mark && b = mark && c = mark && atBlank rest
  | _ => false

/-- Whether a line starts with the mark of a document's start or end. -/
def atSeparator (cs : List Char) : Bool := atMarks '-' cs || atMarks '.' cs

/-- A place in a text: characters before it, lines before it, and its column in its line. -/
structure Position where
  index : Nat
  line : Nat
  column : Nat
  deriving DecidableEq, Repr

/-- The place after a character. A byte order mark takes no column. -/
def Position.after (p : Position) (c : Char) : Position :=
  if isBreak c then ⟨p.index + 1, p.line + 1, 0⟩
  else if c = '\uFEFF' then ⟨p.index + 1, p.line, p.column⟩
  else ⟨p.index + 1, p.line, p.column + 1⟩

/-- The text that is left, and where it starts. -/
structure Cursor where
  rest : List Char
  position : Position
  deriving Repr

namespace Cursor

/-- The start of a text. -/
def start (text : List Char) : Cursor := ⟨text, ⟨0, 0, 0⟩⟩

/-- Moves over `n` characters. -/
def skip : Nat → Cursor → Cursor
  | n + 1, ⟨c :: cs, p⟩ => skip n ⟨cs, p.after c⟩
  | _, cursor => cursor

/-- Moves over the characters of a class. -/
def skipWhile (p : Char → Bool) (cursor : Cursor) : Cursor :=
  cursor.skip (cursor.rest.takeWhile p).length

end Cursor

/-- Drops one line break and gives it as it stands in a value; nothing where there is none. -/
def takeBreak : List Char → List Char × List Char
  | c :: cs => if isBreak c then ([breakChar c], cs) else ([], c :: cs)
  | [] => ([], [])

end Ostinato.Yaml

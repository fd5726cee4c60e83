import Ostinato.Text.Encoding
import Ostinato.Text.Integer
import Ostinato.Yaml.Token.Basic

/-!
# Names in a document

Anchors, aliases, tags and directives. Each function reads one from the front of a text, just after
its indicator, and gives the number of characters that it has taken.
-/

namespace Ostinato.Yaml

/-- The name of an anchor or alias. -/
def lexName (cs : List Char) : Except Fault (String × Nat) :=
  let name := cs.takeWhile isWordChar
  let rest := cs.dropWhile isWordChar
  if name.isEmpty then refuseAt rest "an anchor or alias has no name"
  else if atBlank rest || endsOr ("?:,]\x7d%@\x60".toList.contains ·) rest then
    .ok (String.ofList name, name.length)
  else refuse "an anchor or alias has a character that no name may have"

/-! ## Tags -/

/-- A character of a tag that stands for itself. -/
def isUriChar (c : Char) : Bool :=
  c.isAlphanum || "-;/?:@&=+$,_.!~*'()[]".toList.contains c

/-- A hexadecimal digit as a number. -/
def hexDigit? (c : Char) : Option Nat :=
  if isHexDigit c then (Text.asciiDigit? c).orElse fun _ => Text.letterDigit? c else none

/-- The number of characters of an escape such as `%C3`. -/
def escapeLength : Nat := 3

/-- The bytes of a run of escapes. -/
def lexEscapes : List Char → Except Fault (List UInt8)
  | '%' :: a :: b :: rest =>
    match hexDigit? a, hexDigit? b with
    | some x, some y => (lexEscapes rest).map (UInt8.ofNat (16 * x + y) :: ·)
    | _, _ => refuse "an escape in a tag needs two hexadecimal digits"
  | '%' :: rest =>
    if rest.all isHexDigit then .error .ended
    else refuse "an escape in a tag needs two hexadecimal digits"
  | _ => .ok []

/-- The characters of a tag; each step takes at least one. -/
def lexUriChars : Nat → List Char → Except Fault (List Char × Nat)
  | 0, _ => .ok ([], 0)
  | fuel + 1, cs =>
    match cs with
    | [] => .ok ([], 0)
    | c :: rest =>
      if c = '%' then do
        let bytes ← lexEscapes cs
        match Text.decodeUtf8 bytes with
        | none => refuse "the escapes in a tag are no text"
        | some text =>
          let taken := escapeLength * bytes.length
          let (more, n) ← lexUriChars fuel (cs.drop taken)
          return (text ++ more, taken + n)
      else if isUriChar c then do
        let (more, n) ← lexUriChars fuel rest
        return (c :: more, n + 1)
      else .ok ([], 0)

/-- The characters of a tag, at least one. -/
def lexUri (cs : List Char) : Except Fault (String × Nat) := do
  let run := cs.takeWhile fun c => isUriChar c || c = '%'
  if run.isEmpty then refuseAt cs "a tag has no characters"
  else
    let (uri, n) ← lexUriChars run.length cs
    return (String.ofList uri, n)

/-- The handle of a tag: one mark, two, or two around a word. -/
def lexHandle : List Char → Except Fault (String × Nat)
  | '!' :: rest =>
    if rest.head? = some ' ' then .ok ("!", 1)
    else
      let word := rest.takeWhile isWordChar
      match rest.dropWhile isWordChar with
      | '!' :: _ => .ok (String.ofList ('!' :: word ++ ['!']), word.length + 2)
      | rest => refuseAt rest "a tag handle is not closed"
  | _ => refuse "a tag handle starts with an exclamation mark"

/-- Whether an exclamation mark comes before the next space or break. -/
def hasHandle (cs : List Char) : Bool :=
  (cs.takeWhile fun c => !(c = ' ' || isBreak c)).contains '!'

/-- A tag, from its exclamation mark on: verbatim, the lone mark, or a handle and a suffix. -/
def lexTag (cs : List Char) : Except Fault (Token × Nat) := do
  let after := cs.drop 1
  let (token, taken) ←
    if after.head? = some '<' then do
      let (uri, n) ← lexUri (after.drop 1)
      match after.drop (n + 1) with
      | '>' :: _ => pure (Token.tag none uri, n + 3)
      | rest => refuseAt rest "a verbatim tag is not closed"
    else if atBlank after then pure (Token.tag none "!", 1)
    else if hasHandle after then do
      let (handle, m) ← lexHandle cs
      let (suffix, n) ← lexUri (cs.drop m)
      pure (Token.tag (some handle) suffix, m + n)
    else do
      let (suffix, n) ← lexUri after
      pure (Token.tag (some "!") suffix, n + 1)
  if atSpaceOrBreak (cs.drop taken) then return (token, taken)
  else refuse "a tag is not followed by a space"

/-! ## Directives -/

/-- The number of spaces in front of a text. -/
def countSpaces (cs : List Char) : Nat := (cs.takeWhile (· = ' ')).length

/-- The digits of a version number. -/
def lexNumber (cs : List Char) : Except Fault (Nat × Nat) :=
  let digits := cs.takeWhile Char.isDigit
  if digits.isEmpty then refuseAt cs "a version has no number"
  else if Text.maxDigits < digits.length then .error (.scalar .notAValue)
  else .ok (Text.ofDigits 10 (digits.filterMap Text.asciiDigit?), digits.length)

/-- The value of a version directive. -/
def lexVersion (cs : List Char) : Except Fault (Directive × Nat) := do
  let spaces := countSpaces cs
  let (major, m) ← lexNumber (cs.drop spaces)
  match cs.drop (spaces + m) with
  | '.' :: rest =>
    let (_, n) ← lexNumber rest
    if atSpaceOrBreak (rest.drop n) then return (.version major, spaces + m + 1 + n)
    else refuse "a version is not followed by a space"
  | rest => refuseAt rest "a version has no point"

/-- The value of a tag directive. -/
def lexTagDirective (cs : List Char) : Except Fault (Directive × Nat) := do
  let spaces := countSpaces cs
  let (handle, m) ← lexHandle (cs.drop spaces)
  let rest := cs.drop (spaces + m)
  let gap := countSpaces rest
  if gap = 0 then refuseAt rest "a tag handle is not followed by a space"
  else
    let (lead, n) ← lexUri (rest.drop gap)
    if atSpaceOrBreak (rest.drop (gap + n)) then return (.tag handle lead, spaces + m + gap + n)
    else refuse "a tag directive is not followed by a space"

/-- The end of a line that may hold nothing but spaces and a comment, with its break: the number of
characters. -/
def lexLineEnd (cs : List Char) : Except Fault Nat :=
  let spaces := countSpaces cs
  let cs := cs.drop spaces
  let comment := if cs.head? = some '#' then (cs.takeWhile (!isBreak ·)).length else 0
  let cs := cs.drop comment
  if atBreak cs then .ok (spaces + comment + (takeBreak cs).1.length)
  else refuse "a line holds more than a comment"

/-- A directive, after its percent sign, with its line. -/
def lexDirective (cs : List Char) : Except Fault (Directive × Nat) := do
  let name := cs.takeWhile isWordChar
  let rest := cs.dropWhile isWordChar
  if name.isEmpty then refuseAt rest "a directive has no name"
  else if !atSpaceOrBreak rest then refuse "a directive name has a strange character"
  else
    let (directive, m) ←
      if name = "YAML".toList then lexVersion rest
      else if name = "TAG".toList then lexTagDirective rest
      else pure (Directive.other, (rest.takeWhile (!isBreak ·)).length)
    let n ← lexLineEnd (rest.drop m)
    return (directive, name.length + m + n)

end Ostinato.Yaml

import Ostinato.Yaml.Cursor

/-!
# Tags

A tag names the type of a node. A plain scalar without one gets its tag from its spelling: the
recognisers below are the patterns of YAML 1.1.
-/

namespace Ostinato.Yaml

/-- The type of a node. -/
inductive Tag
  | null
  | bool
  | int
  | float
  | binary
  | timestamp
  | omap
  | pairs
  | set
  | str
  | seq
  | map
  | merge
  | value
  /-- A tag that nothing here knows. -/
  | other
  deriving DecidableEq, Repr

namespace Tag

/-- The common front of the tags that are known. -/
def lead : String := "tag:yaml.org,2002:"

/-- The tags by their names. A merge key and a value key can be written as tags too. -/
def table : List (String × Tag) := [
  ("null", null), ("bool", bool), ("int", int), ("float", float), ("binary", binary),
  ("timestamp", timestamp), ("omap", omap), ("pairs", pairs), ("set", set), ("str", str),
  ("seq", seq), ("map", map), ("merge", merge), ("value", value)]

/-- The tag with a full name. -/
def ofName (name : String) : Tag :=
  ((table.find? fun entry => lead ++ entry.1 = name).map (·.2)).getD other

/-! ## Spellings -/

/-- A digit or an underscore. -/
def isSpacedDigit (c : Char) : Bool := c.isDigit || c = '_'

/-- A decimal digit, then digits and underscores. -/
def isSpacedNumber : List Char → Bool
  | c :: cs => c.isDigit && cs.all isSpacedDigit
  | [] => false

/-- The text without its sign. -/
def unsigned : List Char → List Char
  | '-' :: cs => cs
  | '+' :: cs => cs
  | cs => cs

/-- A text cut at its colons. -/
def colonParts : List Char → List (List Char)
  | [] => [[]]
  | c :: cs =>
    if c = ':' then [] :: colonParts cs
    else
      match colonParts cs with
      | part :: parts => (c :: part) :: parts
      | [] => [[c]]

/-- A number below sixty, of one digit or two. -/
def isSixtieth : List Char → Bool
  | [a] => a.isDigit
  | [a, b] => '0' ≤ a && a ≤ '5' && b.isDigit
  | _ => false

/-- Words for true and false. -/
def boolWords : List String := [
  "yes", "Yes", "YES", "no", "No", "NO", "true", "True", "TRUE", "false", "False", "FALSE",
  "on", "On", "ON", "off", "Off", "OFF"]

/-- Words for null. -/
def nullWords : List String := ["", "~", "null", "Null", "NULL"]

/-- An integer: binary, octal, decimal, hexadecimal or to base sixty. -/
def isInt (cs : List Char) : Bool :=
  match unsigned cs with
  | '0' :: 'b' :: c :: rest => (c :: rest).all fun c => c = '0' || c = '1' || c = '_'
  | '0' :: 'x' :: c :: rest => (c :: rest).all fun c => isHexDigit c || c = '_'
  | '0' :: rest => rest.all fun c => ('0' ≤ c && c ≤ '7') || c = '_'
  | c :: rest =>
    match colonParts (c :: rest) with
    | [whole] => c.isDigit && isSpacedNumber whole
    | whole :: sixtieths => c.isDigit && isSpacedNumber whole && sixtieths.all isSixtieth
    | [] => false
  | [] => false

/-- An exponent with its sign, or nothing. -/
def isExponent : List Char → Bool
  | [] => true
  | e :: sign :: c :: rest =>
    (e = 'e' || e = 'E') && (sign = '-' || sign = '+') && (c :: rest).all Char.isDigit
  | _ => false

/-- A number with a point: decimal, perhaps with an exponent, or to base sixty; an infinity; no
number. -/
def isFloat (cs : List Char) : Bool :=
  let infinity := ["inf", "Inf", "INF"].map String.toList
  let noNumber := ["nan", "NaN", "NAN"].map String.toList
  let body := unsigned cs
  let whole := body.takeWhile (· ≠ '.')
  match body.dropWhile (· ≠ '.') with
  | '.' :: fraction =>
    if whole.isEmpty then
      infinity.contains fraction || (body = cs && noNumber.contains fraction) ||
        (body = cs && isSpacedNumber (fraction.takeWhile isSpacedDigit) &&
          isExponent (fraction.dropWhile isSpacedDigit))
    else
      match colonParts whole with
      | [number] => isSpacedNumber number && isExponent (fraction.dropWhile isSpacedDigit)
      | number :: sixtieths =>
        isSpacedNumber number && sixtieths.all isSixtieth && fraction.all isSpacedDigit
      | [] => false
  | _ => false

/-! ## Dates and times -/

/-- The parts of a date and, if it has one, a time. -/
structure Stamp where
  year : List Char
  month : List Char
  day : List Char
  time : Option (List Char × List Char × List Char)
  fraction : List Char
  /-- Whether an offset is negative, its hours and its minutes; universal time has neither. -/
  offset : Option (Option (Bool × List Char × List Char))

/-- Takes between `least` and `most` digits, as many as there are. -/
def takeDigits (least most : Nat) (cs : List Char) : Option (List Char × List Char) :=
  let digits := (cs.take most).takeWhile Char.isDigit
  if digits.length < least then none else some (digits, cs.drop digits.length)

/-- Takes one given character. -/
def takeChar (c : Char) : List Char → Option (List Char)
  | d :: cs => if c = d then some cs else none
  | [] => none

/-- The offset at the end of a time. -/
def readOffset (cs : List Char) : Option (Option (Option (Bool × List Char × List Char))) :=
  match cs.dropWhile isSpace with
  | [] => if cs.isEmpty then some none else none
  | ['Z'] => some (some none)
  | sign :: rest => do
    if sign ≠ '+' ∧ sign ≠ '-' then none
    else
      let (hours, rest) ← takeDigits 1 2 rest
      match rest with
      | [] => return some (some (decide (sign = '-'), hours, []))
      | ':' :: rest =>
        let (minutes, rest) ← takeDigits 2 2 rest
        if rest.isEmpty then return some (some (decide (sign = '-'), hours, minutes)) else none
      | _ => none

/-- Reads the parts of a date, or of a date and a time after a letter or blanks. -/
def readStamp (cs : List Char) : Option Stamp := do
  let (year, rest) ← takeDigits 4 4 cs
  let rest ← takeChar '-' rest
  let (month, rest) ← takeDigits 1 2 rest
  let rest ← takeChar '-' rest
  let (day, rest) ← takeDigits 1 2 rest
  match rest with
  | [] => return ⟨year, month, day, none, [], none⟩
  | c :: after =>
    let rest ←
      if c = 'T' ∨ c = 't' then pure after
      else if isSpace c then pure (after.dropWhile isSpace)
      else none
    let (hour, rest) ← takeDigits 1 2 rest
    let rest ← takeChar ':' rest
    let (minute, rest) ← takeDigits 2 2 rest
    let rest ← takeChar ':' rest
    let (second, rest) ← takeDigits 2 2 rest
    let (fraction, rest) :=
      match rest with
      | '.' :: rest => (rest.takeWhile Char.isDigit, rest.dropWhile Char.isDigit)
      | rest => ([], rest)
    let offset ← readOffset rest
    return ⟨year, month, day, some (hour, minute, second), fraction, offset⟩

/-- A date with two digits for month and day, or a date with a time. -/
def isTimestamp (cs : List Char) : Bool :=
  match readStamp cs with
  | none => false
  | some s => s.time.isSome || (s.month.length = 2 && s.day.length = 2)

/-! ## The tag of a plain scalar -/

/-- A text without one line feed at its end. -/
def withoutBreak (text : List Char) : List Char :=
  if text.getLast? = some '\n' then text.dropLast else text

/-- The tag that a spelling asks for. One line feed at its end does not count. The marks of tags,
anchors and aliases stand for a type of their own, which nothing here knows. -/
def ofSpelling (text : List Char) : Tag :=
  let cs := withoutBreak text
  if text.isEmpty then null
  else if boolWords.any (·.toList = cs) then bool
  else if isFloat cs then float
  else if isInt cs then int
  else if cs = ['<', '<'] then merge
  else if !cs.isEmpty && nullWords.any (·.toList = cs) then null
  else if isTimestamp cs then timestamp
  else if cs = ['='] then value
  else if cs = ['!'] ∨ cs = ['&'] ∨ cs = ['*'] then other
  else str

end Tag

end Ostinato.Yaml

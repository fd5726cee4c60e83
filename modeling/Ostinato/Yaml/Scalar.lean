import Ostinato.Text.Integer
import Ostinato.Value.Basic
import Ostinato.Yaml.Tag

/-!
# Reading scalars

What a scalar's text means under its tag. Underscores between digits do not count, and a number with
colons is to base sixty.
-/

namespace Ostinato.Yaml

/-! ## Numbers -/

/-- An integer to base sixty, the most significant part first. -/
def sexagesimalInt (parts : List (List Char)) : Option Int :=
  (parts.mapM (Text.readLiteral? 10)).map (·.foldl (fun n d => n * 60 + d) 0)

/-- The text of a number without underscores and sign, and whether the sign is minus. -/
def numberBody (text : List Char) : Bool × List Char :=
  Text.splitSign (text.filter (· ≠ '_'))

/-- Reads an integer. -/
def readInt (text : List Char) : Except Fault Int := do
  let (negative, body) := numberBody text
  let magnitude : Option Int :=
    match body with
    | '0' :: 'b' :: rest => Text.readLiteral? 2 rest
    | '0' :: 'x' :: rest => Text.readLiteral? 16 rest
    | ['0'] => some 0
    | '0' :: _ => Text.readLiteral? 8 body
    | _ =>
      if body.contains ':' then sexagesimalInt (Tag.colonParts body)
      else Text.readLiteral? 10 body
  if (text.filter (· ≠ '_')).isEmpty || (body.isEmpty && !text.isEmpty) then
    throw (.scalar .noNumber)
  else
    match magnitude with
    | some n => return if negative then -n else n
    | none => throw (.scalar .notAValue)

/-- Digits with single underscores between them, or none. -/
def looseDigits (cs : List Char) : Option (List Nat) :=
  if cs.isEmpty then some []
  else Text.separatedDigits (fun c => Text.digitValue? c) cs

/-- The exponent of a decimal: a letter, perhaps a sign, and digits; zero where there is none. -/
def readExponent : List Char → Option Int
  | [] => some 0
  | e :: rest =>
    if e = 'e' ∨ e = 'E' then
      let (negative, digits) := Text.splitSign rest
      (Text.separatedDigits (fun c => Text.digitValue? c) digits).map fun ds =>
        if negative then -Text.ofDigits 10 ds else Text.ofDigits 10 ds
    else none

/-- Reads a decimal, or a word for an infinity or for no number. -/
def readDecimal (text : List Char) : Option Binary64 := do
  let (negative, body) := Text.splitSign (Text.trim Text.isBlank text)
  let word := String.ofList (body.map Char.toLower)
  if word = "inf" ∨ word = "infinity" then return .infinite negative
  else if word = "nan" then return .nan
  else
    let isMark := fun c => c = '.' || c = 'e' || c = 'E'
    let whole ← looseDigits (body.takeWhile (!isMark ·))
    let rest := body.dropWhile (!isMark ·)
    let (fraction, rest) ←
      match rest with
      | '.' :: rest => do
        let fraction ← looseDigits (rest.takeWhile (!isMark ·))
        pure (fraction, rest.dropWhile (!isMark ·))
      | rest => pure ([], rest)
    let exponent ← readExponent rest
    if whole.isEmpty ∧ fraction.isEmpty then none
    else
      return .ofDecimal negative (Text.ofDigits 10 (whole ++ fraction)) (exponent - fraction.length)

/-- A number with a point to base sixty, the least significant part first, from a weight on. The
weight has to be a double, whatever it is multiplied with. -/
def sexagesimalFloat : Nat → List Binary64 → Binary64 → Except Fault Binary64
  | _, [], sum => .ok sum
  | weight, d :: ds, sum =>
    match Binary64.ofRatio false weight 1 with
    | .infinite _ => .error (.scalar .tooLarge)
    | w => sexagesimalFloat (weight * 60) ds (sum.add (d.mul w))

/-- Whether a text is the word for what is no number, after a sign or without one. -/
def isNoNumber (text : List Char) : Bool :=
  (numberBody (text.map Char.toLower)).2 = ".nan".toList

/-- Reads a number with a point. -/
def readFloat (text : List Char) : Except Fault Binary64 := do
  let (negative, body) := numberBody (text.map Char.toLower)
  if (text.filter (· ≠ '_')).isEmpty then throw (.scalar .noNumber)
  else
    let magnitude ←
      if body = ".inf".toList then pure (Binary64.infinite false)
      else if isNoNumber text then pure Binary64.nan
      else if body.contains ':' then
        match (Tag.colonParts body).mapM readDecimal with
        | some ds => sexagesimalFloat 1 ds.reverse (.zero false)
        | none => throw (.scalar .notAValue)
      else
        match readDecimal body with
        | some x => pure x
        | none => throw (.scalar .notAValue)
    return if negative then magnitude.neg else magnitude

/-! ## Words and times -/

/-- Reads a word for true or false. -/
def readBool (text : List Char) : Except Fault Bool :=
  let word := String.ofList (text.map Char.toLower)
  if ["yes", "true", "on"].contains word then .ok true
  else if ["no", "false", "off"].contains word then .ok false
  else .error (.scalar .notABool)

/-- The number that some ASCII digits spell. -/
def digitsValue (cs : List Char) : Nat := Text.ofDigits 10 (cs.filterMap Text.asciiDigit?)

/-- Reads a date or a date with a time. A fraction counts to the microsecond, and one line feed at
the end does not count. -/
def readTimestamp (text : List Char) : Except Fault Value :=
  match Tag.readStamp (Tag.withoutBreak text) with
  | none => .error (.scalar .notAStamp)
  | some s =>
    let date : Date := ⟨digitsValue s.year, digitsValue s.month, digitsValue s.day⟩
    match s.time with
    | none => if date.isValid then .ok (.date date) else .error (.scalar .notAValue)
    | some (hour, minute, second) =>
      let micro := (s.fraction ++ List.replicate 6 '0').take 6
      let offset := s.offset.map fun o =>
        match o with
        | none => 0
        | some (negative, hours, minutes) =>
          let n : Int := digitsValue hours * 3600 + digitsValue minutes * 60
          if negative then -n else n
      let moment : Moment :=
        ⟨date, digitsValue hour, digitsValue minute, digitsValue second, digitsValue micro, offset⟩
      if moment.isValid then .ok (.moment moment) else .error (.scalar .notAValue)

/-! ## Binary data -/

/-- The six bits that a character of base 64 stands for. -/
def sextet? (c : Char) : Option Nat :=
  if c.isUpper then some (c.toNat - 0x41)
  else if c.isLower then some (c.toNat - 0x61 + 26)
  else if c.isDigit then some (c.toNat - 0x30 + 52)
  else if c = '+' then some 62
  else if c = '/' then some 63
  else none

/-- The bytes of a run of sextets, four for three bytes; of fewer at the end only whole bytes
count. -/
def bytesOfSextets : List Nat → List UInt8
  | a :: b :: c :: d :: rest =>
    let n := ((a * 64 + b) * 64 + c) * 64 + d
    UInt8.ofNat (n / 65536) :: UInt8.ofNat (n / 256) :: UInt8.ofNat n :: bytesOfSextets rest
  | [a, b, c] => [UInt8.ofNat ((a * 64 + b) / 16), UInt8.ofNat ((b * 64 + c) / 4)]
  | [a, b] => [UInt8.ofNat ((a * 64 + b) / 16)]
  | _ => []

/-- The sextets up to the padding that completes a group of four; characters that are no part of
the code are passed over. `count` and `pads` are those of the group at hand. -/
def sextets : Nat → Nat → List Char → Option (List Nat)
  | count, _, [] => if count = 0 then some [] else none
  | count, pads, c :: cs =>
    if c = '=' then
      if 2 ≤ count ∧ 4 ≤ count + pads + 1 then some []
      else sextets count (if 2 ≤ count then pads + 1 else pads) cs
    else
      match sextet? c with
      | none => sextets count pads cs
      | some s => (sextets ((count + 1) % 4) 0 cs).map (s :: ·)

/-- Reads binary data in base 64. -/
def readBinary (text : List Char) : Except Fault (List UInt8) :=
  if text.any fun c => 0x7f < c.toNat then .error (.document "binary data is in ASCII")
  else
    match sextets 0 0 text with
    | some s => .ok (bytesOfSextets s)
    | none => .error (.document "binary data is cut off")

end Ostinato.Yaml

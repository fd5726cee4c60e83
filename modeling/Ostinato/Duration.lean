import Ostinato.Value.Text

/-!
# Note lengths

A duration code names a note length. Lengths are exact fractions of the reference beat, on which a
quarter note lasts one second.
-/

namespace Ostinato

/-- The length of a quarter note. -/
def quarter : Rat := 1

/-- The codes and their lengths. A dotted code lasts half as long again as the plain one. -/
def durationTable : List (Text × Rat) := [
  ("2", quarter * 2),
  ("4", quarter),
  ("4.", quarter / 2 * 3),
  ("8", quarter / 2),
  ("8.", quarter / 4 * 3),
  ("16", quarter / 4)]

/-- The length of a code. -/
def codeLength? (code : Text) : Option Rat := durationTable.lookup code

/-- The code that a document value spells: its text. An integer spells itself; a double is never a
code of the table, since its text has digits after the point. -/
def durationCode (pool : Pool) (v : Value) : Except Unwritable Text := v.plain pool

/-- The value is no duration code. -/
structure UnknownDuration where
  value : Value
  deriving Repr

/-- What is wrong with an unknown duration. -/
def UnknownDuration.message (e : UnknownDuration) : String :=
  "Unknown note duration: " ++ e.value.description

/-- Why no length is found for a value. -/
inductive LengthFault
  | unknown (fault : UnknownDuration)
  /-- The value spells no code at all, for it has no text. -/
  | unwritable (reason : Unwritable)
  deriving Repr

/-- The length of the code that a document value spells. -/
def lengthOf (pool : Pool) (v : Value) : Except LengthFault Rat :=
  match durationCode pool v with
  | .error reason => .error (.unwritable reason)
  | .ok code =>
    match codeLength? code with
    | some length => .ok length
    | none => .error (.unknown ⟨v⟩)

end Ostinato

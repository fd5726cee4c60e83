import Ostinato.Text.Quoted

/-!
# Pitches

A pitch token names a note number. Melodic instruments read tokens such as `c4` by a formula in
which `c4` is 60; percussion instruments look them up in a table of their own.
-/

namespace Ostinato

/-- The semitones of the letters that a token can start with. -/
def letterSemitones : List (Char × Int) := [('c', 0), ('e', 4), ('g', 7)]

/-- The semitones of what can stand between a token's letter and its octave. -/
def accidentalSemitones : List (List Char × Int) := [([], 0)]

/-- No instrument sounds the token; `instrument` is the one that was asked, if it is known. -/
structure UnknownPitch where
  token : Text
  instrument : Option Text
  deriving DecidableEq, Repr

namespace UnknownPitch

/-- The same fault, found by a given instrument. -/
def withInstrument (e : UnknownPitch) (instrument : Text) : UnknownPitch :=
  { e with instrument := some instrument }

/-- What is wrong with an unknown pitch. -/
def message (e : UnknownPitch) : String :=
  "Unknown pitch " ++ e.token.quoted ++ " in instrument " ++ (e.instrument.getD "").quoted

end UnknownPitch

/-- How an instrument turns tokens into note numbers. -/
inductive Pitching
  | formulaic
  | lookup (table : List (Text × Int))
  deriving DecidableEq, Repr

namespace Pitching

/-- The strategy of an instrument: a table always wins, even an empty one. -/
def ofTable : Option (List (Text × Int)) → Pitching
  | some table => lookup table
  | none => formulaic

/-- The name of a strategy. -/
def mode : Pitching → String
  | formulaic => "formulaic"
  | lookup _ => "lookup"

/-- Whether tokens are looked up in a table. -/
def isLookup : Pitching → Bool
  | formulaic => false
  | lookup _ => true

/-- The note number of a letter, an accidental and an octave digit, in this order. -/
def formula? (token : Text) : Option Int :=
  let cs := token.chars
  match cs, cs.getLast? with
  | letter :: rest, some digit =>
    if rest.isEmpty ∨ ¬ digit.isDigit then none
    else
      match letterSemitones.lookup letter, accidentalSemitones.lookup rest.dropLast with
      | some semitones, some shift =>
        some ((digit.toNat - 0x30 + 1 : Nat) * 12 + semitones + shift)
      | _, _ => none
  | _, _ => none

/-- The note number of a token. -/
def resolve? (p : Pitching) (token : Text) : Option Int :=
  match p with
  | formulaic => formula? token
  | lookup table => table.lookup token

/-- The note number of a token, or the fault that there is none. -/
def resolve (p : Pitching) (token : Text) : Except UnknownPitch Int :=
  match p.resolve? token with
  | some n => .ok n
  | none => .error ⟨token, none⟩

end Pitching

end Ostinato

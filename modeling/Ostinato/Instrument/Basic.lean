import Ostinato.Instrument.Definition
import Ostinato.Pitch

/-!
# Instruments

An instrument is a definition under the name of its file, with the pitch strategy that the
definition asks for.
-/

namespace Ostinato

/-- A loaded instrument. -/
structure Instrument where
  name : String
  definition : Definition
  deriving DecidableEq, Repr

namespace Instrument

/-- The type by which parts ask for an instrument. -/
def type (i : Instrument) : Text := i.definition.type

/-- The program of an instrument, from 1. -/
def program (i : Instrument) : Option Int := i.definition.program

/-- The pitch strategy of an instrument. -/
def pitching (i : Instrument) : Pitching := Pitching.ofTable i.definition.pitchMap

/-- Whether an instrument is percussion: its tokens are looked up. -/
def isPercussion (i : Instrument) : Bool := i.pitching.isLookup

/-- The note number of a token; a fault names the type of the instrument. -/
def resolvePitch (i : Instrument) (token : Text) : Except UnknownPitch Int :=
  match i.pitching.resolve token with
  | .ok n => .ok n
  | .error e => .error (e.withInstrument i.type)

end Instrument

end Ostinato

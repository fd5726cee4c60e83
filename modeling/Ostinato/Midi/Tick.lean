import Ostinato.Number.Rounding

/-!
# Ticks

A time in seconds on the reference beat becomes a whole number of ticks at a tempo and a resolution,
rounded to the nearest.
-/

namespace Ostinato.Midi

/-- The exact length of a time in ticks. -/
def exactTicks (seconds : Rat) (tempo ticksPerBeat : Int) : Rat :=
  seconds * tempo / 60 * ticksPerBeat

/-- The length of a time in ticks. -/
def ticks (seconds : Rat) (tempo ticksPerBeat : Int) : Int :=
  roundHalfEven (exactTicks seconds tempo ticksPerBeat)

end Ostinato.Midi

/-!
# MIDI messages

The messages of a MIDI file and their order on tracks. Each message stands a number of ticks after
the one before it.
-/

namespace Ostinato.Midi

/-- The resolution of a file that asks for none, in ticks per beat. -/
def defaultTicksPerBeat : Int := 480

/-- The velocity of every note. -/
def defaultVelocity : Int := 127

/-- What a message says. -/
inductive Message
  | trackName (text : String)
  | programChange (channel program : Int)
  | noteOn (channel note velocity : Int)
  | noteOff (channel note velocity : Int)
  | setTempo (microseconds : Int)
  | endOfTrack
  deriving DecidableEq, Repr

/-- A message and its distance in ticks from the one before it. -/
structure Timed where
  delta : Int
  message : Message
  deriving DecidableEq, Repr

/-- A file of simultaneous tracks. -/
structure File where
  ticksPerBeat : Int
  tracks : List (List Timed)
  deriving DecidableEq, Repr

/-- The format number of a file of simultaneous tracks. -/
def simultaneous : Int := 1

end Ostinato.Midi

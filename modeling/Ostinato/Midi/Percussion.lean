/-!
# Percussion sounds

Names for some of the sounds that General MIDI puts on the notes of the drum channel.
-/

namespace Ostinato.Midi

/-- A percussion sound. -/
inductive DrumSound
  | kick
  | snare
  | clap
  | closedHihat
  | openHihat
  | tomLow
  | tomHigh
  deriving DecidableEq, Repr

namespace DrumSound

/-- The note that plays a sound. -/
def note : DrumSound → Int
  | kick => 36
  | snare => 38
  | clap => 39
  | closedHihat => 42
  | openHihat => 46
  | tomLow => 41
  | tomHigh => 50

/-- All the sounds that have a name. -/
def all : List DrumSound := [kick, snare, clap, closedHihat, openHihat, tomLow, tomHigh]

/-- The name of a sound. -/
def name : DrumSound → String
  | kick => "KICK"
  | snare => "SNARE"
  | clap => "CLAP"
  | closedHihat => "CLOSED_HIHAT"
  | openHihat => "OPEN_HIHAT"
  | tomLow => "TOM_LOW"
  | tomHigh => "TOM_HIGH"

end DrumSound

end Ostinato.Midi

import Ostinato.Instrument.Basic
import Ostinato.Score.Basic

/-!
# Channels

Melodic instruments with a program take channels from a counter, which is passed in and handed back.
The counter steps over the drum channel, which percussion has for itself.
-/

namespace Ostinato

/-- A channel for a track, and the program to send on it, counted from 0. -/
structure Assignment where
  channel : Int
  program : Option Int
  deriving DecidableEq, Repr

/-- More tracks ask for a channel than there are; `channel` would be the next. -/
structure ChannelsExhausted where
  channel : Int
  deriving DecidableEq, Repr

/-- What is wrong when the channels have run out. -/
def ChannelsExhausted.message (e : ChannelsExhausted) : String :=
  "Ran out of MIDI channels (next channel would be " ++ integerText e.channel ++ ")"

/-- Assigns a channel to the next track, and gives the counter after it. Percussion uses the drum
channel and no program; a melodic instrument without program gets no assignment. -/
def allocate (i : Instrument) (counter : Int) :
    Except ChannelsExhausted (Option Assignment × Int) :=
  if i.isPercussion then .ok (some ⟨drumChannel, none⟩, counter)
  else
    match i.program with
    | none => .ok (none, counter)
    | some program =>
      let channel := if counter = drumChannel then counter + 1 else counter
      if maxChannel < channel then .error ⟨channel⟩
      else .ok (some ⟨channel, some (program - 1)⟩, channel + 1)

end Ostinato

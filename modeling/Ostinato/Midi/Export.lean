import Ostinato.Midi.Message
import Ostinato.Midi.Tick
import Ostinato.Score.Basic
import Ostinato.Text.Encoding

/-!
# From scores to MIDI messages

A file starts with a track that holds only the tempo; each track of the score follows. Notes start
and stop at their own rounded ticks, counted from the top of the track, so rounding never adds up.
-/

namespace Ostinato.Midi

/-- A message at a tick from the top of its track. -/
structure Placed where
  tick : Int
  message : Message
  deriving DecidableEq, Repr

/-- Whether a message stops a note. -/
def Message.isNoteOff : Message → Bool
  | noteOff .. => true
  | _ => false

/-- The order of messages on a track. On one tick notes stop before others start, so a note that is
repeated sounds anew. -/
def Placed.before (a b : Placed) : Bool :=
  a.tick < b.tick || (a.tick = b.tick && (a.message.isNoteOff || !b.message.isNoteOff))

/-- The start and the stop of a note. -/
def placeNote (channel tempo ticksPerBeat : Int) (n : NoteEvent) : List Placed := [
  ⟨ticks n.time tempo ticksPerBeat, .noteOn channel n.pitch defaultVelocity⟩,
  ⟨ticks n.stop tempo ticksPerBeat, .noteOff channel n.pitch 0⟩]

/-- The starts and stops of notes in the order in which they are played. -/
def placeNotes (channel tempo ticksPerBeat : Int) (notes : List NoteEvent) : List Placed :=
  (notes.flatMap (placeNote channel tempo ticksPerBeat)).mergeSort Placed.before

/-- Messages with their distances, from a tick on. -/
def deltasFrom : Int → List Placed → List Timed
  | _, [] => []
  | tick, p :: rest => ⟨p.tick - tick, p.message⟩ :: deltasFrom p.tick rest

/-- The messages in front of a track's notes: its name, if it has one, and its program. -/
def trackHead (t : Track) : List Timed :=
  (if t.name = "" then [] else [⟨0, .trackName (Text.latin t.name)⟩]) ++
    (t.program.toList.map fun p => ⟨0, .programChange t.channel p⟩)

/-- The messages of a track. -/
def ofTrack (tempo ticksPerBeat : Int) (t : Track) : List Timed :=
  trackHead t ++ deltasFrom 0 (placeNotes t.channel tempo ticksPerBeat t.notes) ++
    [⟨0, .endOfTrack⟩]

/-- Why a score has no MIDI file. -/
inductive TempoFault
  | zero
  /-- A beat does not last between 0 and 2 ^ 24 - 1 microseconds. -/
  | outOfRange (microseconds : Int)
  deriving DecidableEq, Repr

/-- What is wrong when a score has no MIDI file. -/
def TempoFault.message : TempoFault → String
  | zero => "division by zero"
  | outOfRange _ => "attribute must be in range 0..16777215"

/-- The whole microseconds of a beat. -/
def microsecondsPerBeat (tempo : Int) : Except TempoFault Int :=
  if tempo = 0 then .error .zero
  else
    let n := Int.tdiv 60000000 tempo
    if n < 0 ∨ 0xffffff < n then .error (.outOfRange n) else .ok n

/-- The track that sets the tempo. -/
def tempoTrack (microseconds : Int) : List Timed :=
  [⟨0, .setTempo microseconds⟩, ⟨0, .endOfTrack⟩]

/-- The MIDI file of a score. -/
def ofScore (ticksPerBeat : Int) (s : Score) : Except TempoFault File :=
  match microsecondsPerBeat s.tempo with
  | .error fault => .error fault
  | .ok n =>
    .ok ⟨ticksPerBeat, tempoTrack n :: s.tracks.map (ofTrack s.tempo ticksPerBeat)⟩

end Ostinato.Midi

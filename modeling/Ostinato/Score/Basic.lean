import Ostinato.Number.Fraction

/-!
# Scores

A score is a tempo and a list of tracks, each with timed notes on one channel. Times are seconds on
the reference beat; the tempo matters only when the score is written out. Notes and tracks are made
by functions that check their ranges.
-/

namespace Ostinato

/-- A number outside the range of what it is for. -/
inductive RangeFault
  | pitch (n : Int)
  | time (q : Rat)
  | duration (q : Rat)
  | channel (n : Int)
  | program (n : Int)
  deriving DecidableEq, Repr

/-- What is wrong with a number. -/
def RangeFault.message : RangeFault → String
  | pitch n => "Pitch must be 0-127, got " ++ integerText n
  | time q => "Time must be >= 0, got " ++ fractionText q
  | duration q => "Duration must be > 0, got " ++ fractionText q
  | channel n => "Channel must be 0-15, got " ++ integerText n
  | program n => "Program must be 0-127, got " ++ integerText n

/-- The channel that belongs to percussion alone. -/
def drumChannel : Int := 9

/-- The channel of a track that asks for none. -/
def defaultChannel : Int := 0

/-- The last channel. -/
def maxChannel : Int := 15

/-- The greatest note number and the greatest program. -/
def maxData : Int := 127

/-- The tempo of a score that asks for none, in beats a minute. -/
def defaultTempo : Int := 120

/-- A sounding note. -/
structure NoteEvent where
  pitch : Int
  time : Rat
  duration : Rat
  deriving DecidableEq, Repr

namespace NoteEvent

/-- A note with numbers in range. -/
structure Valid (n : NoteEvent) : Prop where
  pitch_nonneg : 0 ≤ n.pitch
  pitch_le : n.pitch ≤ maxData
  time_nonneg : 0 ≤ n.time
  duration_pos : 0 < n.duration

/-- A note, if its numbers are in range. -/
def make (pitch : Int) (time duration : Rat) : Except RangeFault NoteEvent :=
  if pitch < 0 ∨ maxData < pitch then .error (.pitch pitch)
  else if time < 0 then .error (.time time)
  else if duration ≤ 0 then .error (.duration duration)
  else .ok ⟨pitch, time, duration⟩

/-- The end of a note. -/
def stop (n : NoteEvent) : Rat := n.time + n.duration

end NoteEvent

/-- A track of a score. Programs count from 0 here; a track without one leaves the program alone. -/
structure Track where
  name : String
  channel : Int
  program : Option Int
  notes : List NoteEvent
  deriving DecidableEq, Repr

namespace Track

/-- A track whose channel, program and notes are in range. -/
structure Valid (t : Track) : Prop where
  channel_nonneg : 0 ≤ t.channel
  channel_le : t.channel ≤ maxChannel
  program_nonneg : ∀ p ∈ t.program, 0 ≤ p
  program_le : ∀ p ∈ t.program, p ≤ maxData
  notes : ∀ n ∈ t.notes, n.Valid

/-- A track without notes, if its channel and program are in range. -/
def make (name : String) (channel : Int) (program : Option Int) : Except RangeFault Track :=
  if channel < 0 ∨ maxChannel < channel then .error (.channel channel)
  else
    match program with
    | none => .ok ⟨name, channel, none, []⟩
    | some p =>
      if p < 0 ∨ maxData < p then .error (.program p) else .ok ⟨name, channel, some p, []⟩

/-- A track with one more note at its end. -/
def add (t : Track) (n : NoteEvent) : Track := { t with notes := t.notes ++ [n] }

end Track

/-- A tempo in beats a minute and tracks in order. -/
structure Score where
  tempo : Int
  tracks : List Track
  deriving DecidableEq, Repr

namespace Score

/-- A score whose tracks are valid. -/
def Valid (s : Score) : Prop := ∀ t ∈ s.tracks, t.Valid

/-- A score without tracks. -/
def empty (tempo : Int) : Score := ⟨tempo, []⟩

/-- A score with one more track at its end. -/
def add (s : Score) (t : Track) : Score := { s with tracks := s.tracks ++ [t] }

/-- A score with one more note at the end of one of its tracks. -/
def addNote (s : Score) (track : Nat) (n : NoteEvent) : Score :=
  { s with tracks := s.tracks.modify track (·.add n) }

/-- The notes of all tracks. -/
def notes (s : Score) : List NoteEvent := s.tracks.flatMap (·.notes)

/-- The number of notes. -/
def totalEvents (s : Score) : Nat := s.notes.length

/-- The later of two times. -/
def later (p q : Rat) : Rat := if p ≤ q then q else p

/-- The end of the last sounding note; zero if nothing sounds. -/
def duration (s : Score) : Rat :=
  match s.notes.map NoteEvent.stop with
  | [] => 0
  | first :: rest => rest.foldl later first

end Score

end Ostinato

import Ostinato.Score.Basic

/-!
# Editing a score

A score is built up by hand in edits, each of which adds one track or one note at the end. An edit
that is refused changes nothing.
-/

namespace Ostinato

/-- One addition to a score. -/
inductive Edit
  | track (name : String) (channel : Int) (program : Option Int)
  /-- A note at the end of the track with a number. -/
  | note (track : Nat) (pitch : Int) (time duration : Rat)
  deriving DecidableEq, Repr

/-- Why an edit is refused. -/
inductive EditFault
  | range (fault : RangeFault)
  | noTrack (track : Nat)
  deriving DecidableEq, Repr

namespace Score

/-- The score after an edit. -/
def edit (s : Score) : Edit → Except EditFault Score
  | .track name channel program =>
    match Track.make name channel program with
    | .error fault => .error (.range fault)
    | .ok t => .ok (s.add t)
  | .note track pitch time duration =>
    if s.tracks.length ≤ track then .error (.noTrack track)
    else
      match NoteEvent.make pitch time duration with
      | .error fault => .error (.range fault)
      | .ok n => .ok (s.addNote track n)

/-- The score after an edit, or the same score if the edit is refused. -/
def tryEdit (s : Score) (e : Edit) : Score :=
  match s.edit e with
  | .error _ => s
  | .ok s => s

/-- The score after edits of which some may be refused. -/
def tryEdits (s : Score) (es : List Edit) : Score := es.foldl tryEdit s

end Score

end Ostinato

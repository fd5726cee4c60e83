import Ostinato.Instrument.Basic
import Ostinato.Part
import Ostinato.Score.Basic

/-!
# The time line

The slots of a part are played one after the other, and the whole of them a number of times. The
tokens of a slot start together; the clock moves on once for each slot, whether or not it sounds.
-/

namespace Ostinato

/-- Why a part cannot be laid out in time. -/
inductive NoteFault
  | duration (fault : UnknownDuration)
  | pitch (fault : UnknownPitch)
  | range (fault : RangeFault)
  deriving Repr

/-- What is wrong when a part cannot be laid out in time. -/
def NoteFault.message : NoteFault → String
  | duration fault => fault.message
  | pitch fault => fault.message
  | range fault => fault.message

/-- How often a part is played if nothing else is said. -/
def defaultLoops : Int := 4

namespace Timeline

/-- The note of one token. -/
def note (i : Instrument) (time duration : Rat) (token : Text) : Except NoteFault NoteEvent :=
  match i.resolvePitch token with
  | .error e => .error (.pitch e)
  | .ok pitch =>
    match NoteEvent.make pitch time duration with
    | .error e => .error (.range e)
    | .ok n => .ok n

/-- The notes of tokens that start together. -/
def chord (i : Instrument) (time duration : Rat) : List Text → Except NoteFault (List NoteEvent)
  | [] => .ok []
  | token :: tokens =>
    match note i time duration token with
    | .error e => .error e
    | .ok n =>
      match chord i time duration tokens with
      | .error e => .error e
      | .ok ns => .ok (n :: ns)

/-- The notes of slots that are played from a time on, and the time at their end. -/
def pass (i : Instrument) : List Slot → Rat → Except NoteFault (List NoteEvent × Rat)
  | [], time => .ok ([], time)
  | slot :: slots, time =>
    match slot.length with
    | .error e => .error (.duration e)
    | .ok duration =>
      match chord i time duration slot.tokens with
      | .error e => .error e
      | .ok ns =>
        match pass i slots (time + duration) with
        | .error e => .error e
        | .ok (more, stop) => .ok (ns ++ more, stop)

/-- The notes of slots that are played a number of times from a time on. -/
def loop (i : Instrument) (slots : List Slot) : Nat → Rat → Except NoteFault (List NoteEvent)
  | 0, _ => .ok []
  | n + 1, time =>
    match pass i slots time with
    | .error e => .error e
    | .ok (ns, stop) =>
      match loop i slots n stop with
      | .error e => .error e
      | .ok more => .ok (ns ++ more)

end Timeline

/-- The notes of a part that an instrument plays `loops` times; a count below one means not at
all. -/
def timeline (i : Instrument) (slots : List Slot) (loops : Int) :
    Except NoteFault (List NoteEvent) :=
  Timeline.loop i slots loops.toNat 0

end Ostinato

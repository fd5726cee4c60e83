import Ostinato.Instrument.Ensemble
import Ostinato.Score.Channel
import Ostinato.Score.Timeline

/-!
# Assembling a score

Parts become tracks one after the other. The channel counter goes from one to the next, so their
order fixes which track has which channel.
-/

namespace Ostinato

/-- Why a part cannot become a track. -/
inductive PartFault
  /-- No instrument of the type that the part asks for. -/
  | unresolved (type : Text) (source : String)
  | exhausted (fault : ChannelsExhausted)
  | range (fault : RangeFault)
  | note (fault : NoteFault)
  deriving Repr

/-- What is wrong when no instrument has a type. -/
def unresolvedMessage (type : Text) (source : String) : String :=
  "Couldn't find an instrument of type " ++ type.quoted ++ " (track " ++ Text.quoted source ++ ")"

/-- What is wrong when a part cannot become a track. -/
def PartFault.message : PartFault → String
  | unresolved type source => unresolvedMessage type source
  | exhausted fault => fault.message
  | range fault => fault.message
  | note fault => fault.message

/-- A score that is being put together, and the channel counter. -/
structure Assembly where
  score : Score
  counter : Int
  deriving Repr

namespace Assembly

/-- Nothing assembled yet. -/
def start (tempo : Int) : Assembly := ⟨.empty tempo, 0⟩

/-- The track of an instrument with its assignment, still without notes. -/
def seat (i : Instrument) : Option Assignment → Except RangeFault Track
  | none => Track.make i.name defaultChannel none
  | some a => Track.make i.name a.channel a.program

/-- Makes a part the next track. A part whose notes cannot be laid out leaves its track without
notes; after any fault the counter stays. -/
def addPart (e : Ensemble) (loops : Int) (a : Assembly) (source : String) (part : Part) :
    Except PartFault Track × Assembly :=
  match e.findByType part.instrument with
  | none => (.error (.unresolved part.instrument source), a)
  | some i =>
    match allocate i a.counter with
    | .error fault => (.error (.exhausted fault), a)
    | .ok (assignment, counter) =>
      match seat i assignment with
      | .error fault => (.error (.range fault), a)
      | .ok track =>
        match timeline i part.slots loops with
        | .error fault => (.error (.note fault), { a with score := a.score.add track })
        | .ok notes =>
          let track := { track with notes }
          (.ok track, ⟨a.score.add track, counter⟩)

/-- Makes parts tracks until one fails. -/
def addParts (e : Ensemble) (loops : Int) (a : Assembly) :
    List (String × Part) → Except PartFault Assembly
  | [] => .ok a
  | (source, part) :: rest =>
    match addPart e loops a source part with
    | (.error fault, _) => .error fault
    | (.ok _, a) => addParts e loops a rest

end Assembly

/-- The score of parts in order, each with the name of its source. -/
def assemble (e : Ensemble) (loops tempo : Int) (parts : List (String × Part)) :
    Except PartFault Score :=
  match Assembly.addParts e loops (.start tempo) parts with
  | .error fault => .error fault
  | .ok a => .ok a.score

end Ostinato

import Ostinato.Check.Read
import Ostinato.Duration

/-!
# Parts

A part is the music of one track: the type of the instrument that plays it and its slots in order.
A slot takes its duration on the time line whether it sounds one pitch, a chord or nothing.
-/

namespace Ostinato

/-- What a slot sounds: one token, or tokens that start together. An empty chord is a rest. -/
inductive Sound
  | single (token : Text)
  | chord (tokens : List Text)
  deriving DecidableEq, Repr

/-- One place on the time line. -/
structure Slot where
  duration : Text
  sound : Sound
  deriving DecidableEq, Repr

/-- The music of one track. -/
structure Part where
  instrument : Text
  slots : List Slot
  deriving DecidableEq, Repr

/-- The tokens of a sound, in order. -/
def Sound.tokens : Sound → List Text
  | single token => [token]
  | chord tokens => tokens

namespace Slot

/-- The tokens that a slot sounds, in order. -/
def tokens (s : Slot) : List Text := s.sound.tokens

/-- The length of a slot: that of its code, which is a text already. -/
def length (s : Slot) : Except UnknownDuration Rat :=
  match codeLength? s.duration with
  | some length => .ok length
  | none => .error ⟨.text s.duration⟩

/-! ## Reading and writing -/

/-- A sound is given by exactly one of its two spellings. -/
def soundOf : Option Text → Option (List Text) → Checked Sound
  | some token, none => .ok (.single token)
  | none, some tokens => .ok (.chord tokens)
  | _, _ => Checked.refuse .pitchChoice

/-- The code of a slot. Whatever value stands there is taken as one, if it has a text. -/
def asDuration (pool : Pool) (v : Value) : Checked Text :=
  match durationCode pool v with
  | .ok code => .ok code
  | .error reason => Checked.refuse (.unwritable reason)

/-- A slot as a document spells it. -/
def ofValue (pool : Pool) (v : Value) : Checked Slot :=
  (v.asRecord pool "NoteEntry").andThen fun entries =>
    let duration := Value.required (asDuration pool) entries "duration" ["duration"]
    let pitch := Value.optional (Value.asOptional Value.asText) none entries ["pitch"]
    let pitches :=
      Value.optional (Value.asOptional (Value.asList pool Value.asText)) none entries ["pitches"]
    (Checked.both Prod.mk duration (Checked.both Prod.mk pitch pitches)).andThen
      fun (duration, pitch, pitches) => (soundOf pitch pitches).map (Slot.mk duration)

/-- The entry of a sound in the spelling of a slot. -/
def soundEntry : Sound → Value × Value
  | .single token => (.text "pitch", .text token)
  | .chord tokens => (.text "pitches", .list (tokens.map .text))

/-- The spelling of a slot. -/
def toValue (s : Slot) : Value :=
  .dict [(.text "duration", .text s.duration), soundEntry s.sound]

end Slot

namespace Part

/-- A part as a document spells it; without notes it is silent. -/
def ofValue (pool : Pool) (v : Value) : Checked Part :=
  (v.asRecord pool "TrackDefinition").andThen fun entries =>
    Checked.both Part.mk
      (Value.required Value.asText entries "instrument" ["instrument"])
      (Value.optional (Value.asList pool (Slot.ofValue pool)) [] entries ["notes"])

/-- The spelling of a part. -/
def toValue (p : Part) : Value :=
  .dict [
    (.text "instrument", .text p.instrument),
    (.text "notes", .list (p.slots.map Slot.toValue))]

/-- The document of a part. -/
def toDocument (p : Part) : Value := .dict [(.text "track", p.toValue)]

/-- The sum of the lengths of some slots. -/
def totalLength : List Slot → Except UnknownDuration Rat
  | [] => .ok 0
  | s :: rest =>
    match s.length with
    | .error e => .error e
    | .ok length =>
      match totalLength rest with
      | .error e => .error e
      | .ok total => .ok (length + total)

end Part

end Ostinato

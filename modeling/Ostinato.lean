import Ostinato.Main
import Ostinato.Midi.Percussion
import Ostinato.Proofs.Midi.Balance
import Ostinato.Proofs.Midi.Playback
import Ostinato.Proofs.Midi.SavedFile
import Ostinato.Score.Edit
import Ostinato.Proofs.Midi.Looping
import Ostinato.Proofs.Check.Read
import Ostinato.Proofs.Instrument.Basic
import Ostinato.Proofs.Instrument.Ensemble
import Ostinato.Proofs.Score.Range
import Ostinato.Proofs.Disk.Growth
import Ostinato.Proofs.Build.Effect
import Ostinato.Proofs.Build.Steps
import Ostinato.Proofs.Build.FirstFault
import Ostinato.Proofs.Score.Allocation
import Ostinato.Proofs.Score.Duration
import Ostinato.Proofs.Score.Edit
import Ostinato.Proofs.Midi.Seconds
import Ostinato.Proofs.CommandLine.Agreement
import Ostinato.Proofs.Score.Layout
import Ostinato.Proofs.Build.Directory
import Ostinato.Proofs.Build.Idle
import Ostinato.Proofs.Midi.Structure
import Ostinato.Proofs.Score.Failure
import Ostinato.Proofs.Build.Instruments
import Ostinato.Proofs.Disk.Descriptor
import Ostinato.Proofs.Instrument.Token
import Ostinato.Proofs.Score.Attempt
import Ostinato.Proofs.Midi.Length
import Ostinato.Proofs.Part.Grammar
import Ostinato.Proofs.Disk.Spelling
import Ostinato.Proofs.Build.Reordering
import Ostinato.Proofs.Value.Code
import Ostinato.Proofs.Build.Interruption
import Ostinato.Proofs.Midi.Silence

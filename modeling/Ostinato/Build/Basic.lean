import Ostinato.Build.Config
import Ostinato.Build.Log
import Ostinato.Disk.Descriptor
import Ostinato.Midi.Bytes
import Ostinato.Midi.Export
import Ostinato.Score.Assembly

/-!
# Builds

A build loads the instruments of one directory, compiles the parts of another in the order of their
file names, and writes the score as a MIDI file. Whatever can be wrong with the input is found
before the first thing is written.
-/

namespace Ostinato

/-- Why a build fails. -/
inductive BuildFault
  | directory (fault : Descriptor.ListFault)
  | descriptor (fault : DescriptorFault)
  | part (fault : PartFault)
  | tempo (fault : Midi.TempoFault)
  | disk (path : Path) (fault : DiskFault)
  | write (fault : Midi.WriteFault)
  deriving Repr

/-- Whether a fault lies in what the user wrote: a descriptor, a part, or a path to nowhere. All
others are faults of numbers that no valid configuration has, or of the file system. -/
def BuildFault.isReported : BuildFault → Bool
  | directory (.missing _) => true
  | directory (.disk _ fault) => fault = .notFound
  | descriptor (.malformed _ _) => true
  | descriptor (.disk _ fault) => fault = .notFound
  | descriptor (.scalar _) => false
  | descriptor .tooDeep => false
  | part (.unresolved _ _) => true
  | part (.exhausted _) => true
  | part (.range _) => false
  | part (.note (.duration _)) => true
  | part (.note (.pitch _)) => true
  | part (.note (.range _)) => false
  | tempo _ => false
  | disk _ fault => fault = .notFound
  | write _ => false

/-- What is wrong when a build fails. -/
def BuildFault.message : BuildFault → String
  | directory fault => fault.message
  | descriptor fault => fault.message
  | part fault => fault.message
  | tempo fault => fault.message
  | disk path fault => fault.message path
  | write fault => fault.message

namespace Build

/-! ## Instruments -/

/-- Adds the instrument of one file. -/
def loadInstrument (t : FileTree) (e : Ensemble) (path : Path) : Logged BuildFault Ensemble := do
  Logged.emit (.reading "instrument" path)
  let definition ← Logged.lift .descriptor
    (Descriptor.read t path "instrument" Definition.ofValue)
  let i : Instrument := ⟨path.stem, definition⟩
  match e.add i with
  | .error fault =>
    Logged.lift .descriptor (.error (.malformed path (.duplicateName fault.name)))
  | .ok next =>
    match e.findByType i.type with
    | some earlier => Logged.emit (.shadowed i.name earlier.name i.type)
    | none => pure ()
    return next

/-- Adds the instruments of files one after the other. -/
def loadInstruments (t : FileTree) (e : Ensemble) : List Path → Logged BuildFault Ensemble
  | [] => pure e
  | path :: paths => do
    let e ← loadInstrument t e path
    loadInstruments t e paths

/-- The ensemble of the instruments in a directory. -/
def loadEnsemble (t : FileTree) (directory : Path) : Logged BuildFault Ensemble := do
  let paths ← Logged.lift .directory (Descriptor.list t directory)
  let e ← loadInstruments t .empty paths
  Logged.emit (.loaded e.size directory)
  return e

/-! ## Parts -/

/-- The part in a file. -/
def readPart (t : FileTree) (path : Path) : Except DescriptorFault Part :=
  Descriptor.read t path "track" Part.ofValue

/-- The entry about the channel that a part takes from the counter, if it takes one. -/
def seatEntries (e : Ensemble) (counter : Int) (part : Part) : List LogEntry :=
  match e.findByType part.instrument with
  | none => []
  | some i =>
    match allocate i counter with
    | .ok (some ⟨channel, some _⟩, _) => [.seated i.name channel]
    | _ => []

/-- Makes the part in a file the next track. -/
def compilePart (t : FileTree) (e : Ensemble) (loops : Int) (a : Assembly) (path : Path) :
    Logged BuildFault Assembly := do
  Logged.emit (.reading "track" path)
  let part ← Logged.lift .descriptor (readPart t path)
  Logged.emitAll (seatEntries e a.counter part)
  match a.addPart e loops path.name part with
  | (.error fault, _) => Logged.lift .part (.error fault)
  | (.ok track, a) =>
    let pattern ← Logged.lift (fun fault => .part (.note (.duration fault)))
      (Part.totalLength part.slots)
    Logged.emit
      (.compiled path.name part.instrument track.channel track.notes.length pattern)
    return a

/-- Makes the parts in files tracks one after the other, and notes the name of each file when its
track is there. -/
def compileParts (t : FileTree) (e : Ensemble) (loops : Int) (a : Assembly)
    (compiled : List String) : List Path → Logged BuildFault (Assembly × List String)
  | [] => pure (a, compiled)
  | path :: paths => do
    let a ← compilePart t e loops a path
    compileParts t e loops a (compiled ++ [path.name]) paths

/-- The score of the tracks in a directory, and the names of their files. -/
def assembleDirectory (t : FileTree) (e : Ensemble) (loops tempo : Int) (directory : Path) :
    Logged BuildFault (Score × List String) := do
  let paths ← Logged.lift .directory (Descriptor.list t directory)
  let (a, compiled) ← compileParts t e loops (.start tempo) [] paths
  return (a.score, compiled)

/-- A score, the MIDI file that it makes and the names of the files it comes from. -/
structure Compiled where
  score : Score
  midi : Midi.File
  sources : List String
  deriving Repr

/-- All of a build but the writing. -/
def compile (t : FileTree) (c : Config) (ticksPerBeat : Int) : Logged BuildFault Compiled := do
  let e ← loadEnsemble t c.instruments
  let (score, sources) ← assembleDirectory t e c.loops c.tempo c.tracks
  let midi ← Logged.lift .tempo (Midi.ofScore ticksPerBeat score)
  return ⟨score, midi, sources⟩

/-! ## Writing -/

/-- Writes a MIDI file. The directories above it are made if they are missing, and those that could
be made stay. The file is emptied before its bytes are known, so a file that cannot be written is
left cut off. -/
def writeMidi (t : FileTree) (path : Path) (f : Midi.File) :
    Except BuildFault Unit × FileTree :=
  match t.makeWay path.parent with
  | (.error fault, t) => (.error (.disk path fault), t)
  | (.ok (), t) =>
    match t.openForWriting path with
    | .error fault => (.error (.disk path fault), t)
    | .ok (place, t) =>
      match f.write with
      | (bytes, none) => (.ok (), t.set place (.file bytes))
      | (bytes, some fault) => (.error (.write fault), t.set place (.file bytes))

end Build

/-- What a build leaves: its log, the compiled score or the fault, and the file tree. -/
structure BuildResult where
  log : List LogEntry
  outcome : Except BuildFault Build.Compiled
  tree : FileTree

/-- Runs a build. -/
def build (t : FileTree) (c : Config) (write : Bool) (ticksPerBeat : Int) : BuildResult :=
  let compiled := Build.compile t c ticksPerBeat
  match compiled.outcome with
  | .error fault => ⟨compiled.log, .error fault, t⟩
  | .ok result =>
    if write then
      match Build.writeMidi t c.output result.midi with
      | (.error fault, t) => ⟨compiled.log, .error fault, t⟩
      | (.ok (), t) =>
        ⟨compiled.log ++ [.wrote result.score.tracks.length c.output], .ok result, t⟩
    else ⟨compiled.log, .ok result, t⟩

end Ostinato

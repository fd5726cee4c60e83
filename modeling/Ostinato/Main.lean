import Ostinato.CommandLine.Run

/-!
# The program

Reads from disk what the command looks at, runs the command on it, and writes to disk what the
command has made or changed.
-/

namespace Ostinato.Program

/-- A tree with an entry put into it, if it has a place for it. -/
def withEntry (t : FileTree) (p : Path) (e : Entry) : FileTree :=
  match t.plant p e with
  | .ok t => t
  | .error _ => t

/-- What the disk has at a path, if that is a file or a directory. -/
def onDisk? (path : String) : IO (Option Entry) := do
  try
    let found ← IO.FS.realPath path
    match (← found.metadata).type with
    | .dir => return some .directory
    | .file => return some (.file (← IO.FS.readBinFile found).toList)
    | _ => return none
  catch _ => return none

/-- What the disk has in a directory, by names. -/
def entriesIn (p : Path) : IO (List (String × Entry)) := do
  try
    let found ← (← IO.FS.realPath p.text).readDir
    found.toList.filterMapM fun e => return (← onDisk? e.path.toString).map (e.fileName, ·)
  catch _ => return []

/-- A tree with what the disk has at a path. -/
def withPath (t : FileTree) (p : Path) : IO FileTree := do
  match ← onDisk? p.text with
  | some e => return withEntry t p e
  | none => return t

/-- A tree with all that the disk has in a directory, however long the paths in it are. -/
def withDirectory (t : FileTree) (directory : Path) : IO FileTree := do
  let t ← withPath t directory
  match t.find directory with
  | .error _ => return t
  | .ok place =>
    return (← entriesIn directory).foldl
      (fun t e => t.set { place with names := place.names ++ [e.1] } e.2) t

/-- A tree with what the disk has at a path and above it. -/
def withWay (t : FileTree) (p : Path) : IO FileTree :=
  (List.range (p.parts.length + 1)).foldlM (fun t n => withPath t ⟨p.root, p.parts.take n⟩) t

/-- The tree that a build with some options looks at. -/
def load (o : Options) : IO FileTree := do
  match o.config with
  | .error _ => return .empty
  | .ok c => withWay (← withDirectory (← withDirectory .empty c.instruments) c.tracks) c.output

/-- Writes to disk what the command has made or changed. What is made comes in order, so the
directory of a file is there before the file. -/
def save (before after : FileTree) : IO Unit :=
  after.entries.forM fun (place, e) => do
    if before.get? place ≠ some e then
      let p : Path := ⟨if place.absolute then .single else .working, place.names⟩
      match e with
      | .directory => IO.FS.createDirAll p.text
      | .file data => IO.FS.writeBinFile p.text (ByteArray.mk data.toArray)

/-- How the options are written. -/
def usage : String :=
  "usage: ostinato [-h] [--data DATA] [--style STYLE] [--instruments INSTRUMENTS] " ++
    "[--tracks TRACKS] [--output OUTPUT] [--loops LOOPS] [--debug]"

/-- Reports how the command ended, and gives the exit code. -/
def report (ending : Ending) : IO UInt32 := do
  match ending with
  | .help => IO.println usage
  | .usage fault => IO.eprintln (usage ++ "\nerror: " ++ fault.message)
  | .success => pure ()
  | .failure fault => IO.eprintln ("ERROR: Build failed: " ++ fault.message)
  | .escape fault => IO.eprintln fault.message
  return UInt32.ofNat (ending.exitCode?.getD 1)

/-- Prints an entry of the log. -/
def printEntry (e : LogEntry) : IO Unit :=
  IO.eprintln ((match e.level with
    | .debug => "DEBUG: "
    | .info => "INFO: ") ++ e.text)

end Ostinato.Program

open Ostinato in
/-- Compiles the parts of a style to a MIDI file. -/
def main (words : List String) : IO UInt32 := do
  match Options.read .kept words with
  | .ok (.run o) =>
    let before ← Program.load o
    let result := runOptions before o
    result.log.forM Program.printEntry
    Program.save before result.tree
    Program.report result.ending
  | _ => Program.report (run .kept .empty words).ending

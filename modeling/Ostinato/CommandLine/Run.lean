import Ostinato.Build.Basic
import Ostinato.CommandLine.Options

/-!
# The command

The command reads its options, builds, and says in its exit code whether that succeeded.
-/

namespace Ostinato

/-- Why the command fails. -/
inductive CommandFault
  /-- A part of a path is given by nothing. -/
  | noName
  | config (issues : List Issue)
  | build (fault : BuildFault)
  deriving Repr

/-- What is wrong when the command fails. -/
def CommandFault.message : CommandFault → String
  | noName => "a path cannot be made of nothing"
  | config issues => String.intercalate "; " (issues.map Issue.text)
  | build fault => fault.message

/-- How the command ends. -/
inductive Ending
  | help
  | usage (fault : UsageFault)
  | success
  /-- A fault that the command reports. -/
  | failure (fault : CommandFault)
  /-- A fault that the command lets through. -/
  | escape (fault : CommandFault)
  deriving Repr

/-- The exit code, if the command comes to its end. -/
def Ending.exitCode? : Ending → Option Nat
  | help => some 0
  | usage _ => some 2
  | success => some 0
  | failure _ => some 1
  | escape _ => none

/-- What running the command leaves: how it ended, the entries that its log shows, and the file
tree. -/
structure CommandResult where
  ending : Ending
  log : List LogEntry
  tree : FileTree

/-- What an option is given, where something has to be given. -/
def Given.check {α : Type} (complaint : Complaint) : Given α → Checked α
  | argument a => .ok a
  | nothing => Checked.refuse complaint

/-- The standard layout that options ask for. It has to be sound before anything in it is replaced;
a fault in it is not reported. -/
def Options.layout (o : Options) : Except CommandFault Config :=
  match o.data, o.style with
  | .argument root, .argument style =>
    match Checked.under (.name "output_path") (o.output.check .notPath) with
    | .ok output => .ok (.ofDataRoot root style output)
    | .error issues => .error (.config issues)
  | _, _ => .error .noName

/-- The configuration that options ask for, or how the command ends without one. -/
def Options.config (o : Options) : Except Ending Config :=
  match o.layout with
  | .error fault => .error (.escape fault)
  | .ok c =>
    match c.override (o.instruments.map (·.check .notPath)) (o.tracks.map (·.check .notPath))
      (o.loops.map (·.check .notInteger)) with
    | .ok c => .ok c
    | .error issues => .error (.failure (.config issues))

/-- Builds as options ask. -/
def runOptions (t : FileTree) (o : Options) : CommandResult :=
  match o.config with
  | .error ending => ⟨ending, [], t⟩
  | .ok c =>
    let result := build t c true Midi.defaultTicksPerBeat
    match result.outcome with
    | .error fault =>
      let ending : Ending :=
        if fault.isReported then .failure (.build fault) else .escape (.build fault)
      ⟨ending, shownEntries o.debug result.log, result.tree⟩
    | .ok compiled =>
      let entry :=
        LogEntry.built compiled.sources.length compiled.score.totalEvents c.output
      ⟨.success, shownEntries o.debug (result.log ++ [entry]), result.tree⟩

/-- Runs the command with the words of a command line. -/
def run (rule : MarkRule) (t : FileTree) (words : List String) : CommandResult :=
  match Options.read rule words with
  | .error fault => ⟨.usage fault, [], t⟩
  | .ok .help => ⟨.help, [], t⟩
  | .ok (.run o) => runOptions t o

end Ostinato

import Ostinato.Check.Read
import Ostinato.Disk.Path
import Ostinato.Score.Timeline

/-!
# Build configurations

Where a build reads instruments and tracks, where it writes, how often parts are played and at what
tempo.
-/

namespace Ostinato

/-- What a build is told. -/
structure Config where
  instruments : Path
  tracks : Path
  output : Path
  loops : Int
  tempo : Int
  deriving DecidableEq, Repr

namespace Config

/-- The file that is written if nothing else is said. -/
def defaultOutput : Path := ⟨.working, ["output.mid"]⟩

/-- The slowest tempo. -/
def minTempo : Int := 20

/-- The fastest tempo. -/
def maxTempo : Int := 300

/-- A configuration with numbers in range. -/
structure Valid (c : Config) : Prop where
  loops_pos : 1 ≤ c.loops
  tempo_ge : minTempo ≤ c.tempo
  tempo_le : c.tempo ≤ maxTempo

/-- The path that a value spells. -/
def asPath : Value → Checked Path
  | .text t => .ok (.ofText t.string)
  | _ => Checked.refuse .notPath

/-- A configuration as named values spell it. -/
def ofEntries (entries : List (Value × Value)) : Checked Config :=
  let instruments := Value.required asPath entries "instruments_dir" ["instruments_dir"]
  let tracks := Value.required asPath entries "tracks_dir" ["tracks_dir"]
  let output := Value.optional asPath defaultOutput entries ["output_path"]
  let loops := Value.optional (fun v => v.asInteger.andThen (Value.atLeast 1)) defaultLoops entries
    ["loop_count"]
  let tempo := Value.optional (Value.asIntegerIn minTempo maxTempo) defaultTempo entries
    ["tempo_bpm"]
  (Checked.both Prod.mk instruments (Checked.both Prod.mk tracks
    (Checked.both Prod.mk output (Checked.both Prod.mk loops tempo)))).map
      fun (instruments, tracks, output, loops, tempo) =>
        ⟨instruments, tracks, output, loops, tempo⟩

/-- The standard layout: below a root, the instruments and a directory for each style. -/
def ofDataRoot (root : Path) (style : String) (output : Path) : Config where
  instruments := root.child "instruments"
  tracks := (root.child "styles").join (.ofText style)
  output
  loops := defaultLoops
  tempo := defaultTempo

/-- A configuration with some of its parts replaced, each by what a check gives; a count of loops
is checked anew. -/
def override (c : Config) (instruments tracks : Option (Checked Path))
    (loops : Option (Checked Int)) : Checked Config :=
  let instruments := Checked.under (.name "instruments_dir") (instruments.getD (.ok c.instruments))
  let tracks := Checked.under (.name "tracks_dir") (tracks.getD (.ok c.tracks))
  let loops := Checked.under (.name "loop_count")
    ((loops.getD (.ok c.loops)).andThen (Value.atLeast 1))
  (Checked.both Prod.mk instruments (Checked.both Prod.mk tracks loops)).map
    fun (instruments, tracks, loops) => { c with instruments, tracks, loops }

end Config

end Ostinato

import Mathlib
import Ostinato.Build.Basic
import Ostinato.Proofs.Disk.WellFormed

/-!
# What a build changes

A build finds whatever is wrong with its input before it writes, and so a build that such a fault
ends leaves the tree as it was. One that writes puts the file there and the directories above it,
and changes nothing else. The main result is `build_changes`.
-/

namespace Ostinato

/-- A tree in which a file was written: it has its content, the directories above it are there, and
everywhere else the tree is as it was. -/
structure FileTree.Wrote (t t' : FileTree) (p : Path) (place : Place) (data : List UInt8) :
    Prop where
  find : t'.find p = .ok place
  /-- No directory was replaced. -/
  free : t.get? place ≠ some .directory
  content : t'.get? place = some (.file data)
  others : ∀ q ≠ place, t'.get? q = t.get? q ∨
    t.get? q = none ∧ t'.get? q = some .directory ∧
      ∃ above : Path, above.IsAtOrAbove p.parent ∧ t'.find above = .ok q

/-- What was written is read. -/
theorem FileTree.Wrote.read_eq {t t' : FileTree} {p : Path} {place : Place} {data : List UInt8}
    (h : t.Wrote t' p place data) : t'.read p = .ok data := by
  rw [FileTree.read, FileTree.look, h.find]
  dsimp only
  rw [h.content]

namespace Build

variable {t t' : FileTree} {p : Path} {f : Midi.File}

/-- What has grown and then got a file is a tree in which that file was written. -/
theorem wrote_of_grows {made : FileTree} {place : Place}
    (hgrows : t.Grows made (·.IsAtOrAbove p.parent)) (hfind : made.find p = .ok place)
    (hplace : made.get? place ≠ some .directory) (data : List UInt8) :
    t.Wrote ((made.set place (.file [])).set place (.file data)) p place data := by
  have hbase := FileTree.isBase_eq_false hplace
  have hempty : (made.set place (.file [])).get? place ≠ some .directory := by
    rw [FileTree.get?_set_self hbase]
    exact fun h => by cases h
  have hkept : ∀ above q, made.find above = .ok q →
      ((made.set place (.file [])).set place (.file data)).find above = .ok q :=
    fun above q h => FileTree.find_set hempty (FileTree.find_set hplace h)
  refine ⟨hkept p place hfind, ?free, FileTree.get?_set_self hbase, fun q hq => ?others⟩
  case free =>
    obtain hsame | ⟨hnone, -⟩ := hgrows.get? place
    · rwa [← hsame]
    · simp [hnone]
  case others =>
    rw [FileTree.get?_set_of_ne hq, FileTree.get?_set_of_ne hq]
    obtain hsame | ⟨hnone, hdirectory, above, habove, hq⟩ := hgrows.get? q
    · exact Or.inl hsame
    · exact Or.inr ⟨hnone, hdirectory, above, habove, hkept above q hq⟩

/-- How writing a file ends, and the tree that it leaves: it takes three steps, each of which can
fail. -/
inductive Writing (t : FileTree) (p : Path) (f : Midi.File) :
    Except BuildFault Unit → FileTree → Prop
  | noDirectory {left : FileTree} {cause : DiskFault}
      (hmade : t.makeWay p.parent = (.error cause, left)) :
      Writing t p f (.error (.disk p cause)) left
  | noFile {made : FileTree} {cause : DiskFault} (hmade : t.ensureDirectory p.parent = .ok made)
      (hopened : made.openForWriting p = .error cause) :
      Writing t p f (.error (.disk p cause)) made
  | cut {made opened : FileTree} {place : Place} {data : List UInt8} {cause : Midi.WriteFault}
      (hmade : t.ensureDirectory p.parent = .ok made)
      (hopened : made.openForWriting p = .ok (place, opened))
      (hdata : f.write = (data, some cause)) :
      Writing t p f (.error (.write cause)) (opened.set place (.file data))
  | whole {made opened : FileTree} {place : Place} {data : List UInt8}
      (hmade : t.ensureDirectory p.parent = .ok made)
      (hopened : made.openForWriting p = .ok (place, opened)) (hdata : f.write = (data, none)) :
      Writing t p f (.ok ()) (opened.set place (.file data))

/-- Whatever a file is written to, the writing ends in one of the ways that `Writing` lists. -/
theorem writing_writeMidi (t : FileTree) (p : Path) (f : Midi.File) :
    Writing t p f (writeMidi t p f).1 (writeMidi t p f).2 := by
  unfold writeMidi
  split
  next hmade => exact .noDirectory hmade
  next hway =>
    have hmade := FileTree.ensureDirectory_eq_ok_iff.mpr hway
    split
    next hopened => exact .noFile hmade hopened
    next hopened =>
      split
      next hdata => exact .whole hmade hopened hdata
      next hdata => exact .cut hmade hopened hdata

/-- A writing with a given end is one of those that `Writing` lists. -/
theorem writing_of_writeMidi {outcome : Except BuildFault Unit}
    (h : writeMidi t p f = (outcome, t')) : Writing t p f outcome t' := by
  simpa only [h] using writing_writeMidi t p f

/-- A file is written if none of the three steps fails. -/
theorem writeMidi_eq_ok_iff :
    writeMidi t p f = (.ok (), t') ↔
      ∃ made place opened data, t.ensureDirectory p.parent = .ok made ∧
        made.openForWriting p = .ok (place, opened) ∧ f.write = (data, none) ∧
        t' = opened.set place (.file data) := by
  constructor
  · intro h
    cases writing_of_writeMidi h with
    | whole hmade hopened hdata => exact ⟨_, _, _, _, hmade, hopened, hdata, rfl⟩
  · rintro ⟨made, place, opened, data, hmade, hopened, hdata, rfl⟩
    simp only [writeMidi, FileTree.ensureDirectory_eq_ok_iff.mp hmade, hopened, hdata]

/-- If writing succeeds, all bytes of the file stand in its place. -/
theorem wrote_of_writeMidi (h : writeMidi t p f = (.ok (), t')) :
    ∃ place data, f.write = (data, none) ∧ t.Wrote t' p place data := by
  obtain ⟨made, place, opened, data, hmade, hopened, hdata, rfl⟩ := writeMidi_eq_ok_iff.mp h
  obtain ⟨hfind, hplace, rfl⟩ := FileTree.openForWriting_eq_ok_iff.mp hopened
  have hgrows := FileTree.grows_of_ensureDirectory hmade
  exact ⟨place, data, hdata, wrote_of_grows hgrows hfind hplace data⟩

/-- Writing keeps a tree well formed, however it ends. -/
theorem Writing.wellFormed {outcome : Except BuildFault Unit} (h : Writing t p f outcome t')
    (ht : t.WellFormed) : t'.WellFormed := by
  -- a file is put where no directory stands
  have hfile : ∀ {made opened : FileTree} {place : Place},
      t.ensureDirectory p.parent = .ok made → made.openForWriting p = .ok (place, opened) →
      ∀ data, (opened.set place (.file data)).WellFormed := by
    intro made opened place hmade hopened data
    obtain ⟨-, hplace, -⟩ := FileTree.openForWriting_eq_ok_iff.mp hopened
    exact ((ht.of_ensureDirectory hmade).of_openForWriting hopened).set
      (FileTree.isBase_eq_false hplace) _
  cases h with
  | noDirectory hmade =>
    have hleft := ht.makeWay p.parent
    rwa [hmade] at hleft
  | noFile hmade => exact ht.of_ensureDirectory hmade
  | cut hmade hopened => exact hfile hmade hopened _
  | whole hmade hopened => exact hfile hmade hopened _

/-- Whether or not writing goes to its end, a well-formed tree stays one. -/
theorem wellFormed_of_writeMidi (h : t.WellFormed) (p : Path) (f : Midi.File) :
    (writeMidi t p f).2.WellFormed :=
  (writing_writeMidi t p f).wellFormed h

/-- Writing fails for reasons of its own: none that a missing input has. -/
theorem isReported_of_writeMidi {fault : BuildFault} (h : writeMidi t p f = (.error fault, t')) :
    fault.isReported = false := by
  cases writing_of_writeMidi h with
  | @noDirectory left cause hmade =>
    have hne : cause ≠ .notFound := by
      rintro rfl
      exact FileTree.makeDirectories_ne_notFound _ _ _ (congrArg Prod.fst hmade)
    exact decide_eq_false hne
  | @noFile _ cause hmade hcause =>
    have hne : cause ≠ .notFound := by
      rintro rfl
      exact FileTree.openForWriting_ne_notFound hmade hcause
    exact decide_eq_false hne
  | cut => rfl

end Build

variable {t : FileTree} {c : Config} {write : Bool} {ticksPerBeat : Int}

/-- A fault before writing is the fault of the build, and nothing has changed. -/
theorem build_of_compile_error {fault : BuildFault}
    (h : (Build.compile t c ticksPerBeat).outcome = .error fault) :
    (build t c write ticksPerBeat).outcome = .error fault ∧
      (build t c write ticksPerBeat).tree = t := by
  unfold build
  dsimp only
  rw [h]
  exact ⟨rfl, rfl⟩

/-- Without writing, a build ends as its compilation does and leaves the tree as it is. -/
theorem build_without_writing :
    (build t c false ticksPerBeat).outcome = (Build.compile t c ticksPerBeat).outcome ∧
      (build t c false ticksPerBeat).tree = t := by
  unfold build
  dsimp only
  split
  next fault h => exact ⟨h.symm, rfl⟩
  next result h => exact ⟨h.symm, rfl⟩

/-- What a build leaves once all of its input is found to be right. -/
theorem build_of_compile_ok {result : Build.Compiled}
    (h : (Build.compile t c ticksPerBeat).outcome = .ok result) :
    (∃ fault tree, Build.writeMidi t c.output result.midi = (.error fault, tree) ∧
        (build t c true ticksPerBeat).outcome = .error fault) ∨
      ∃ tree, Build.writeMidi t c.output result.midi = (.ok (), tree) ∧
        (build t c true ticksPerBeat).outcome = .ok result ∧
        (build t c true ticksPerBeat).tree = tree := by
  unfold build
  dsimp only
  rw [h]
  dsimp only
  rw [if_pos rfl]
  cases hwrite : Build.writeMidi t c.output result.midi with
  | mk outcome tree =>
    cases outcome with
    | error fault => exact Or.inl ⟨fault, tree, rfl, rfl⟩
    | ok _ => exact Or.inr ⟨tree, rfl, rfl, rfl⟩

/-- A build that writes succeeds if it compiles and can write, and then leaves what writing left. -/
theorem build_writes_iff {result : Build.Compiled} {tree : FileTree} :
    (build t c true ticksPerBeat).outcome = .ok result ∧ (build t c true ticksPerBeat).tree = tree ↔
      (Build.compile t c ticksPerBeat).outcome = .ok result ∧
        Build.writeMidi t c.output result.midi = (.ok (), tree) := by
  cases hcompiled : (Build.compile t c ticksPerBeat).outcome with
  | error fault => simp [(build_of_compile_error hcompiled).1]
  | ok compiled =>
    obtain ⟨fault, left, hwrite, houtcome⟩ | ⟨left, hwrite, houtcome, rfl⟩ :=
      build_of_compile_ok hcompiled
    · rw [houtcome]
      constructor
      · rintro ⟨⟨⟩, -⟩
      · rintro ⟨⟨⟩, hwritten⟩
        rw [hwrite] at hwritten
        cases hwritten
    · rw [houtcome]
      constructor
      · rintro ⟨⟨⟩, rfl⟩
        exact ⟨rfl, hwrite⟩
      · rintro ⟨⟨⟩, hwritten⟩
        rw [hwrite] at hwritten
        cases hwritten
        exact ⟨rfl, rfl⟩

/-- A build keeps a tree well-formed, however it ends. -/
theorem wellFormed_build (h : t.WellFormed) (c : Config) (write : Bool) (ticksPerBeat : Int) :
    (build t c write ticksPerBeat).tree.WellFormed := by
  unfold build
  dsimp only
  split
  next => exact h
  next result _ =>
    have hwritten := Build.wellFormed_of_writeMidi h c.output result.midi
    split
    next =>
      split
      next heq => rwa [heq] at hwritten
      next heq => rwa [heq] at hwritten
    next => exact h

/-- A build that does not write, and one that a fault of its input ends, leaves every file and every
directory as it was, whether the fault is one that is reported or any other that is found before
writing begins. A build that writes and succeeds puts its bytes, and nothing else, into the file; it
makes those directories above the file that were missing, and changes nothing else. -/
theorem build_changes (t : FileTree) (c : Config) (write : Bool) (ticksPerBeat : Int) :
    (write = false → (build t c write ticksPerBeat).tree = t) ∧
    (∀ fault, (build t c write ticksPerBeat).outcome = .error fault → fault.isReported = true →
      (build t c write ticksPerBeat).tree = t) ∧
    (∀ fault, (Build.compile t c ticksPerBeat).outcome = .error fault →
      (build t c write ticksPerBeat).outcome = .error fault ∧
        (build t c write ticksPerBeat).tree = t) ∧
    (∀ result, (build t c write ticksPerBeat).outcome = .ok result → write = true →
      ∃ place data, result.midi.write = (data, none) ∧
        t.Wrote (build t c write ticksPerBeat).tree c.output place data) := by
  refine ⟨?unwritten, ?reported, fun fault => build_of_compile_error, ?written⟩
  case unwritten =>
    rintro rfl
    exact build_without_writing.2
  case reported =>
    intro fault hfault hreported
    cases hcompiled : (Build.compile t c ticksPerBeat).outcome with
    | error earlier => exact (build_of_compile_error hcompiled).2
    | ok result =>
      cases write with
      | false => exact build_without_writing.2
      | true =>
        -- a fault of writing is not one that is reported
        obtain ⟨later, tree, hwrite, houtcome⟩ | ⟨tree, -, houtcome, -⟩ :=
          build_of_compile_ok hcompiled
        · rw [houtcome] at hfault
          cases hfault
          rw [Build.isReported_of_writeMidi hwrite] at hreported
          cases hreported
        · rw [houtcome] at hfault
          cases hfault
  case written =>
    rintro result hresult rfl
    cases hcompiled : (Build.compile t c ticksPerBeat).outcome with
    | error fault =>
      rw [(build_of_compile_error hcompiled).1] at hresult
      cases hresult
    | ok compiled =>
      obtain ⟨fault, tree, -, houtcome⟩ | ⟨tree, hwrite, houtcome, htree⟩ :=
        build_of_compile_ok hcompiled
      · rw [houtcome] at hresult
        cases hresult
      · rw [houtcome] at hresult
        cases hresult
        rw [htree]
        exact Build.wrote_of_writeMidi hwrite

/-- A style without tracks becomes a silent file in a new directory. Without a directory of tracks
the file that is already there keeps its bytes. -/
theorem build_changes_of_silent_style :
    let c : Config := ⟨⟨.working, ["i"]⟩, ⟨.working, ["t"]⟩, ⟨.working, ["o", "out.mid"]⟩, 1, 120⟩
    let silent : FileTree := ⟨[(⟨false, ["i"]⟩, .directory), (⟨false, ["t"]⟩, .directory)]⟩
    let broken : FileTree := ⟨[(⟨false, ["i"]⟩, .directory), (⟨false, ["o"]⟩, .directory),
      (⟨false, ["o", "out.mid"]⟩, .file [1, 2, 3])]⟩
    (∃ result place data, (build silent c true 480).outcome = .ok result ∧
      result.midi.write = (data, none) ∧
      silent.Wrote (build silent c true 480).tree c.output place data) ∧
    (build broken c false 480).tree = broken ∧
    ∃ fault, (build broken c true 480).outcome = .error fault ∧ fault.isReported = true ∧
      (Build.compile broken c 480).outcome = .error fault ∧
      (build broken c true 480).tree = broken := by
  intro c silent broken
  obtain ⟨result, hresult⟩ : ∃ result, (build silent c true 480).outcome = .ok result :=
    ⟨_, by cbv⟩
  obtain ⟨fault, hfault, hreported⟩ : ∃ fault,
      (Build.compile broken c 480).outcome = .error fault ∧ fault.isReported = true :=
    ⟨.directory (.missing ⟨.working, ["t"]⟩), by cbv, rfl⟩
  obtain ⟨-, -, -, hwritten⟩ := build_changes silent c true 480
  obtain ⟨place, data, hdata, hwrote⟩ := hwritten result hresult rfl
  obtain ⟨-, hunchanged, hfirst, -⟩ := build_changes broken c true 480
  obtain ⟨houtcome, -⟩ := hfirst fault hfault
  exact ⟨⟨result, place, data, hresult, hdata, hwrote⟩, (build_changes broken c false 480).1 rfl,
    fault, houtcome, hreported, hfault, hunchanged fault houtcome hreported⟩

end Ostinato

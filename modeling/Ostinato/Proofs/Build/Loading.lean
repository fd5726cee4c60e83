import Ostinato.Proofs.Build.FirstFault

/-!
# Loading and compiling

What has to hold for the first half of a build to succeed, and what it then gives. A directory of
instruments makes an ensemble exactly if all in it can be looked up, all its descriptors can be read
and no two have one stem (`exists_loadEnsemble_iff`). A build compiles exactly if its parts do, one
after the other (`compile_eq_ok_iff`). A track is compiled by its content and by who plays it, and
by nothing else of the tree and the ensemble (`compileParts_congr`).
-/

namespace Ostinato

namespace Build

variable {t t' : FileTree} {c : Config} {e e' : Ensemble}

/-! ## Instruments -/

/-- The listing of a directory has no fault if the directory is there and all in it can be looked
up. -/
theorem listSteps_faultless_iff {directory : Path} :
    firstFault? t c (listSteps t directory) = none ↔
      t.isDirectory directory = .ok true ∧ t.Listable directory := by
  rw [← (follows_list (t := t) (c := c) directory).exists_eq_ok_iff]
  simp only [mapError_eq_ok_iff, Descriptor.list_eq_ok_iff]
  exact ⟨fun ⟨_, hthere, hlistable, _⟩ => ⟨hthere, hlistable⟩,
    fun ⟨hthere, hlistable⟩ => ⟨_, hthere, hlistable, rfl⟩⟩

/-- A file has no fault behind others if it can be read as an instrument and its stem is new. -/
theorem instrumentSteps_faultless_iff {earlier : List Path} {path : Path} :
    firstFault? t c (instrumentSteps earlier path) = none ↔
      (∃ i, readInstrument t path = .ok i) ∧ path.stem ∉ earlier.map Path.stem := by
  rw [instrumentSteps, firstFault?_eq_none_iff, List.forall_mem_cons, List.forall_mem_singleton,
    Step.fault?, Step.fault?]
  cases readInstrument t path <;> simp

/-- Files of instruments are without a fault if all can be read and no stem comes twice. -/
theorem instruments_faultless_iff {earlier paths : List Path} :
    firstFault? t c (inOrder instrumentSteps earlier paths) = none ↔
      (∀ p ∈ paths, ∃ i, readInstrument t p = .ok i) ∧ (paths.map Path.stem).Nodup ∧
        ∀ p ∈ paths, p.stem ∉ earlier.map Path.stem := by
  induction paths generalizing earlier with
  | nil => simp [inOrder, firstFault?]
  | cons path paths ih =>
    rw [inOrder, firstFault?_append, Option.or_eq_none_iff, instrumentSteps_faultless_iff, ih,
      List.forall_mem_cons, List.forall_mem_cons, List.map_cons, List.nodup_cons, List.map_append]
    have hstems : (∀ p ∈ paths, p.stem ∉ earlier.map Path.stem ++ [path].map Path.stem) ↔
        (∀ p ∈ paths, p.stem ∉ earlier.map Path.stem) ∧ path.stem ∉ paths.map Path.stem := by
      simp only [List.mem_append, List.map_singleton, List.mem_singleton, not_or, List.mem_map,
        not_exists, not_and, forall_and]
    rw [hstems]
    tauto

/-- A directory makes an ensemble if it is there, all in it can be looked up, all its descriptors
can be read and no two of them have one stem. -/
theorem exists_loadEnsemble_iff :
    (∃ e, (loadEnsemble t c.instruments).outcome = .ok e) ↔
      t.isDirectory c.instruments = .ok true ∧ t.Listable c.instruments ∧
        (∀ p ∈ files t c.instruments, ∃ i, readInstrument t p = .ok i) ∧
        ((files t c.instruments).map Path.stem).Nodup := by
  rw [(follows_loadEnsemble (c := c) c.instruments).exists_eq_ok_iff, firstFault?_append,
    Option.or_eq_none_iff, instruments_faultless_iff, listSteps_faultless_iff]
  simp [and_assoc]

/-- An ensemble that is loaded from a directory holds the instruments of all descriptors in it. -/
theorem loaded_of_loadEnsemble (h : (loadEnsemble t c.instruments).outcome = .ok e) :
    Loaded t (files t c.instruments) e := by
  have hfollows := follows_loadEnsemble (t := t) (c := c) c.instruments
  rw [h, follows_ok_iff] at hfollows
  exact hfollows.2

/-! ## Tracks -/

variable {loops : Int}

/-- What a file becomes depends on the part in it and on who plays the part. -/
theorem compilePart_congr {path : Path} (hread : readPart t' path = readPart t path)
    (hplayer : ∀ part, readPart t path = .ok part →
      e'.findByType part.instrument = e.findByType part.instrument) (a : Assembly) :
    compilePart t' e' loops a path = compilePart t e loops a path := by
  unfold compilePart
  rw [hread]
  cases hpart : readPart t path with
  | error fault => rfl
  | ok part =>
    have hseat : seatEntries e' a.counter part = seatEntries e a.counter part := by
      rw [seatEntries, seatEntries, hplayer part hpart]
    simp only [Logged.lift, bind, Logged.andThen, hseat,
      Assembly.addPart_congr a path.name (hplayer part hpart)]

/-- What files become depends on the parts in them and on who plays these parts. -/
theorem compileParts_congr {paths : List Path}
    (hread : ∀ p ∈ paths, readPart t' p = readPart t p)
    (hplayer : ∀ p ∈ paths, ∀ part, readPart t p = .ok part →
      e'.findByType part.instrument = e.findByType part.instrument) (a : Assembly)
    (compiled : List String) :
    compileParts t' e' loops a compiled paths = compileParts t e loops a compiled paths := by
  induction paths generalizing a compiled with
  | nil => rfl
  | cons path paths ih =>
    rw [List.forall_mem_cons] at hread hplayer
    rw [compileParts, compileParts, compilePart_congr hread.1 hplayer.1]
    simp only [ih hread.2 hplayer.2]

/-- A file that is compiled can be read as a part. -/
theorem exists_readPart_of_compilePart {a next : Assembly} {path : Path}
    (h : (compilePart t e loops a path).outcome = .ok next) :
    ∃ part, readPart t path = .ok part := by
  unfold compilePart at h
  cases hpart : readPart t path with
  | error fault =>
    rw [hpart] at h
    cases h
  | ok part => exact ⟨part, rfl⟩

/-- Files that became tracks were read. -/
theorem exists_readPart_of_compileParts {a : Assembly} {compiled : List String}
    {result : Assembly × List String} {paths : List Path}
    (h : (compileParts t e loops a compiled paths).outcome = .ok result) {path : Path}
    (hpath : path ∈ paths) : ∃ part, readPart t path = .ok part := by
  induction paths generalizing a compiled with
  | nil => cases hpath
  | cons first rest ih =>
    rw [compileParts, Logged.outcome_bind, bind_eq_ok_iff] at h
    obtain ⟨a', hfirst, hrest⟩ := h
    rcases List.mem_cons.mp hpath with rfl | hmem
    · exact exists_readPart_of_compilePart hfirst
    · exact ih hrest hmem

/-- A directory makes a score if it is listed and the files listed are compiled. -/
theorem assembleDirectory_eq_ok_iff {tempo : Int} {directory : Path} {score : Score}
    {sources : List String} :
    (assembleDirectory t e loops tempo directory).outcome = .ok (score, sources) ↔
      ∃ paths a, Descriptor.list t directory = .ok paths ∧
        (compileParts t e loops (.start tempo) [] paths).outcome = .ok (a, sources) ∧
        score = a.score := by
  simp only [assembleDirectory, Logged.outcome_bind, Logged.outcome_lift, bind_eq_ok_iff,
    mapError_eq_ok_iff]
  constructor
  · rintro ⟨paths, hpaths, ⟨a, compiled⟩, ha, ⟨⟩⟩
    exact ⟨paths, a, hpaths, ha, rfl⟩
  · rintro ⟨paths, a, hpaths, ha, rfl⟩
    exact ⟨paths, hpaths, _, ha, rfl⟩

/-! ## All of a build but the writing -/

/-- A build compiles if the ensemble is loaded, the tracks are assembled, and the score can be
exported. -/
theorem compile_eq_ok_iff {ticksPerBeat : Int} {result : Compiled} :
    (compile t c ticksPerBeat).outcome = .ok result ↔
      ∃ e, (loadEnsemble t c.instruments).outcome = .ok e ∧
        (assembleDirectory t e c.loops c.tempo c.tracks).outcome
          = .ok (result.score, result.sources) ∧
        Midi.ofScore ticksPerBeat result.score = .ok result.midi := by
  simp only [compile, Logged.outcome_bind, Logged.outcome_lift, bind_eq_ok_iff, mapError_eq_ok_iff]
  constructor
  · rintro ⟨e, he, ⟨score, sources⟩, hscore, midi, hmidi, ⟨⟩⟩
    exact ⟨e, he, hscore, hmidi⟩
  · rintro ⟨e, he, hscore, hmidi⟩
    exact ⟨e, he, _, hscore, _, hmidi, rfl⟩

end Build

end Ostinato

import Ostinato.Build.Basic
import Ostinato.Proofs.Disk.Agreement
import Ostinato.Proofs.Score.Range

/-!
# Builds step by step

The input of a build is looked at in steps: a directory is there, a name in it can be looked up, a
file can be read, a stem is new, an instrument is found, a channel is left, notes can be laid out. What a step says of a tree
and a configuration, `Step.fault?`, is said without the ensemble and the counter that a build
carries along. The main result, `follows_compile`, is that all of a build but the writing ends with
the fault of the first step that has one.
-/

namespace Ostinato

/-! ## Outcomes of logged computations -/

namespace Logged

variable {ε δ α β : Type}

/-- A sequence of two computations ends as the second does after the first. -/
@[simp]
theorem outcome_bind (x : Logged ε α) (f : α → Logged ε β) :
    (x >>= f).outcome = x.outcome.bind fun a => (f a).outcome := by
  show (andThen x f).outcome = _
  unfold andThen
  cases x.outcome <;> rfl

/-- Logging an entry succeeds. -/
@[simp]
theorem outcome_emit (e : LogEntry) : (emit e : Logged ε Unit).outcome = .ok () := rfl

/-- Logging entries succeeds. -/
@[simp]
theorem outcome_emitAll (es : List LogEntry) : (emitAll es : Logged ε Unit).outcome = .ok () := rfl

/-- A lifted outcome is that outcome, with its fault taken as one of the other kind. -/
@[simp]
theorem outcome_lift (f : δ → ε) (x : Except δ α) : (lift f x).outcome = x.mapError f := by
  cases x <;> rfl

end Logged

/-! ## Faults in order -/

section Follows

variable {ε α β : Type}

/-- An outcome that is a given fault, or, if none is given, a success with some property. -/
def Follows (fault? : Option ε) (good : α → Prop) (x : Except ε α) : Prop :=
  match fault? with
  | some e => x = .error e
  | none => ∃ a, x = .ok a ∧ good a

/-- A result follows if there is no fault and the result is good. -/
theorem follows_ok_iff {fault? : Option ε} {good : α → Prop} {a : α} :
    Follows fault? good (.ok a) ↔ fault? = none ∧ good a := by
  cases fault? <;> simp [Follows]

/-- A fault follows if it is the one given. -/
theorem follows_error_iff {fault? : Option ε} {good : α → Prop} {e : ε} :
    Follows fault? good (.error e) ↔ fault? = some e := by
  cases fault? <;> simp [Follows, eq_comm]

/-- An outcome that follows is a fault just if that is the one given. -/
theorem Follows.eq_error_iff {fault? : Option ε} {good : α → Prop} {x : Except ε α}
    (h : Follows fault? good x) {e : ε} : x = .error e ↔ fault? = some e := by
  cases x with
  | error e' => simp [follows_error_iff.mp h]
  | ok a => simp [(follows_ok_iff.mp h).1]

/-- An outcome that follows is a result just if no fault is given. -/
theorem Follows.exists_eq_ok_iff {fault? : Option ε} {good : α → Prop} {x : Except ε α}
    (h : Follows fault? good x) : (∃ a, x = .ok a) ↔ fault? = none := by
  cases x with
  | error e => simp [follows_error_iff.mp h]
  | ok a => simp [(follows_ok_iff.mp h).1]

/-- Where two computations run one after the other, the faults of the first come first. -/
theorem Follows.bind {fault? fault?' : Option ε} {good : α → Prop} {good' : β → Prop}
    {x : Except ε α} {f : α → Except ε β} (h : Follows fault? good x)
    (hf : ∀ a, good a → Follows fault?' good' (f a)) :
    Follows (fault?.or fault?') good' (x.bind f) := by
  cases fault? with
  | some e =>
    have hx : x = .error e := h
    rw [hx]
    exact rfl
  | none =>
    obtain ⟨a, rfl, ha⟩ := h
    exact hf a ha

end Follows

namespace Build

/-! ## Files -/

/-- The paths of the descriptors in a directory, in the order of their names. -/
def files (t : FileTree) (directory : Path) : List Path :=
  Descriptor.sorted directory (t.filesIn directory)

/-- The instrument in a file. -/
def readInstrument (t : FileTree) (path : Path) : Except DescriptorFault Instrument :=
  (Descriptor.read t path "instrument" Definition.ofValue).map (Instrument.mk path.stem)

/-- The instruments in those of some files that can be read. -/
def instruments (t : FileTree) (paths : List Path) : List Instrument :=
  paths.filterMap fun path => (readInstrument t path).toOption

/-- The instrument that plays for a type: the first that has it, in the order of the file names. -/
def player? (t : FileTree) (c : Config) (type : Text) : Option Instrument :=
  (instruments t (files t c.instruments)).find? fun i => i.type = type

/-- Whether the track in a file takes a channel: the instrument that plays it does. -/
def takesChannel (t : FileTree) (c : Config) (path : Path) : Bool :=
  match readPart t path with
  | .error _ => false
  | .ok part => (player? t c part.instrument).any Instrument.takesChannel

/-- How many tracks of some files take a channel. -/
def taken (t : FileTree) (c : Config) (paths : List Path) : Nat := paths.countP (takesChannel t c)

/-! ## Steps -/

/-- One step through the input of a build. -/
inductive Step
  /-- There is a directory at the path. -/
  | findDirectory (path : Path)
  /-- The path of an entry can be looked up. -/
  | lookUp (path : Path)
  | readInstrument (path : Path)
  /-- No earlier file has the name of the file without its suffix. -/
  | nameInstrument (earlier : List Path) (path : Path)
  | readTrack (path : Path)
  /-- Some instrument has the type that the track asks for. -/
  | findPlayer (path : Path)
  /-- The tracks of earlier files have left a channel, if the track takes one. -/
  | takeChannel (earlier : List Path) (path : Path)
  /-- The durations and the pitches of the track are known. -/
  | layOut (path : Path)
  deriving DecidableEq

/-- What is wrong at a step, if anything is. A step that looks for something in a track or in its
instrument has nothing to say where that track or that instrument is missing. -/
def Step.fault? (t : FileTree) (c : Config) : Step → Option BuildFault
  | findDirectory path =>
    match t.isDirectory path with
    | .ok true => none
    | .ok false => some (.directory (.missing path))
    | .error fault => some (.directory (.disk path fault))
  | lookUp path =>
    match t.isFile path with
    | .ok _ => none
    | .error fault => some (.directory (.disk path fault))
  | readInstrument path =>
    match Build.readInstrument t path with
    | .ok _ => none
    | .error fault => some (.descriptor fault)
  | nameInstrument earlier path =>
    if path.stem ∈ earlier.map Path.stem then
      some (.descriptor (.malformed path (.duplicateName path.stem)))
    else none
  | readTrack path =>
    match readPart t path with
    | .ok _ => none
    | .error fault => some (.descriptor fault)
  | findPlayer path =>
    match readPart t path with
    | .error _ => none
    | .ok part =>
      match player? t c part.instrument with
      | some _ => none
      | none => some (.part (.unresolved part.instrument path.name))
  | takeChannel earlier path =>
    if takesChannel t c path ∧ 15 ≤ taken t c earlier then some (.part (.exhausted ⟨16⟩)) else none
  | layOut path =>
    match readPart t path with
    | .error _ => none
    | .ok part =>
      match player? t c part.instrument with
      | none => none
      | some i =>
        match timeline i part.slots c.loops with
        | .ok _ => none
        | .error fault => some (.part (.note fault))

/-- The steps of listing a directory: it is found, and then its entries are looked up, in the order
in which it has them. -/
def listSteps (t : FileTree) (directory : Path) : List Step :=
  .findDirectory directory ::
    (t.namesIn directory).map fun name => .lookUp (directory.child name)

/-- The steps of an instrument's file. -/
def instrumentSteps (earlier : List Path) (path : Path) : List Step :=
  [.readInstrument path, .nameInstrument earlier path]

/-- The steps of a track's file. -/
def trackSteps (earlier : List Path) (path : Path) : List Step :=
  [.readTrack path, .findPlayer path, .takeChannel earlier path, .layOut path]

/-- The steps of files one after the other, with the files before each. -/
def inOrder (stepsOf : List Path → Path → List Step) : List Path → List Path → List Step
  | _, [] => []
  | earlier, path :: paths => stepsOf earlier path ++ inOrder stepsOf (earlier ++ [path]) paths

/-- The steps of a build over some files of instruments and some files of tracks. -/
def stepsOver (t : FileTree) (c : Config) (instrumentFiles trackFiles : List Path) : List Step :=
  listSteps t c.instruments ++ inOrder instrumentSteps [] instrumentFiles ++
    (listSteps t c.tracks ++ inOrder trackSteps [] trackFiles)

/-- All steps through the input of a build. -/
def steps (t : FileTree) (c : Config) : List Step :=
  stepsOver t c (files t c.instruments) (files t c.tracks)

/-- The fault of the first of some steps that has one. -/
def firstFault? (t : FileTree) (c : Config) (ss : List Step) : Option BuildFault :=
  ss.findSome? (Step.fault? t c)

variable {t : FileTree} {c : Config}

/-- The first fault of two lists is that of the first list, or else that of the second. -/
theorem firstFault?_append (ss ss' : List Step) :
    firstFault? t c (ss ++ ss') = (firstFault? t c ss).or (firstFault? t c ss') :=
  List.findSome?_append

/-- A fault is the first one if some step has it and no step in front of that has any. -/
theorem firstFault?_eq_some_iff {ss : List Step} {fault : BuildFault} :
    firstFault? t c ss = some fault ↔
      ∃ before step after, ss = before ++ step :: after ∧
        (∀ s ∈ before, s.fault? t c = none) ∧ step.fault? t c = some fault := by
  rw [firstFault?, List.findSome?_eq_some_iff]
  constructor
  · rintro ⟨before, step, after, hss, hstep, hbefore⟩
    exact ⟨before, step, after, hss, hbefore, hstep⟩
  · rintro ⟨before, step, after, hss, hbefore, hstep⟩
    exact ⟨before, step, after, hss, hstep, hbefore⟩

/-- There is no first fault if no step has any. -/
theorem firstFault?_eq_none_iff {ss : List Step} :
    firstFault? t c ss = none ↔ ∀ s ∈ ss, s.fault? t c = none :=
  List.findSome?_eq_none_iff

/-! ## Directories -/

/-- The files of a directory are the files in it that have the suffix of a descriptor. -/
theorem mem_files_iff {directory path : Path} :
    path ∈ files t directory ↔
      (∃ name ∈ t.namesIn directory, directory.child name = path) ∧
        t.isFile path = .ok true ∧ Descriptor.isDescriptor path = true := by
  rw [files, Descriptor.mem_sorted_iff, ← and_assoc]
  refine and_congr_left fun _ => ?_
  simp only [FileTree.filesIn, List.mem_filter, decide_eq_true_eq]
  constructor
  · rintro ⟨name, ⟨hname, hfile⟩, rfl⟩
    exact ⟨⟨name, hname, rfl⟩, hfile⟩
  · rintro ⟨⟨name, hname, rfl⟩, hfile⟩
    exact ⟨name, ⟨hname, hfile⟩, rfl⟩

/-- A path cannot be looked up for one reason only. -/
theorem lookUp_fault?_eq (path : Path) :
    (Step.lookUp path).fault? t c =
      if t.find path = .error .tooLong then some (.directory (.disk path .tooLong)) else none := by
  rw [Step.fault?]
  cases hfile : t.isFile path with
  | error fault =>
    obtain ⟨hfind, rfl⟩ := FileTree.isFile_eq_error_iff.mp hfile
    rw [if_pos hfind]
  | ok found =>
    rw [if_neg fun hfind => ?_]
    rw [FileTree.isFile_eq_error_iff.mpr ⟨hfind, rfl⟩] at hfile
    cases hfile

/-- Where there is no directory, nothing in it is looked up. -/
theorem firstFault?_listSteps_of_nowhere {directory : Path}
    (h : t.isDirectory directory ≠ .ok true) :
    firstFault? t c (listSteps t directory) = (Step.findDirectory directory).fault? t c := by
  rw [firstFault?, listSteps, List.findSome?_cons, Step.fault?]
  cases hthere : t.isDirectory directory with
  | error fault => rfl
  | ok found =>
    cases found with
    | false => rfl
    | true => exact absurd hthere h

/-- Where all in a directory can be looked up, no step has a fault. -/
theorem firstFault?_listSteps_of_listable {directory : Path}
    (hthere : t.isDirectory directory = .ok true) (hlistable : t.Listable directory) :
    firstFault? t c (listSteps t directory) = none := by
  rw [firstFault?_eq_none_iff, listSteps, List.forall_mem_cons, List.forall_mem_map]
  refine ⟨by rw [Step.fault?, hthere], fun name hname => ?_⟩
  rw [lookUp_fault?_eq, if_neg (hlistable name hname)]

/-- The first name in a directory that cannot be looked up is the first fault. -/
theorem firstFault?_listSteps_of_firstTooLong {directory : Path} {name : String}
    (hthere : t.isDirectory directory = .ok true) (h : t.FirstTooLong directory name) :
    firstFault? t c (listSteps t directory)
      = some (.directory (.disk (directory.child name) .tooLong)) := by
  obtain ⟨before, after, hnames, hbefore, hname⟩ := h
  refine firstFault?_eq_some_iff.mpr ⟨.findDirectory directory ::
    before.map fun name => .lookUp (directory.child name), .lookUp (directory.child name),
    after.map fun name => .lookUp (directory.child name), ?_, ?_, ?_⟩
  · rw [listSteps, hnames, List.map_append, List.map_cons, List.cons_append]
  · rw [List.forall_mem_cons, List.forall_mem_map]
    refine ⟨by rw [Step.fault?, hthere], fun other hother => ?_⟩
    rw [lookUp_fault?_eq, if_neg (hbefore other hother)]
  · rw [lookUp_fault?_eq, if_pos hname]

/-- A directory is listed unless it or an entry of it has a fault. -/
theorem follows_list (directory : Path) :
    Follows (firstFault? t c (listSteps t directory)) (· = files t directory)
      ((Descriptor.list t directory).mapError BuildFault.directory) := by
  cases hthere : t.isDirectory directory with
  | error fault =>
    rw [firstFault?_listSteps_of_nowhere (by simp [hthere]), Step.fault?, Descriptor.list, hthere]
    exact rfl
  | ok found =>
    cases found with
    | false =>
      rw [firstFault?_listSteps_of_nowhere (by simp [hthere]), Step.fault?, Descriptor.list,
        hthere]
      exact rfl
    | true =>
      by_cases hlistable : t.Listable directory
      · rw [firstFault?_listSteps_of_listable hthere hlistable,
          Descriptor.list_of_listable hthere hlistable]
        exact ⟨_, rfl, rfl⟩
      · obtain ⟨name, hname⟩ := FileTree.exists_firstTooLong hlistable
        rw [firstFault?_listSteps_of_firstTooLong hthere hname,
          Descriptor.list_of_firstTooLong hthere hname]
        exact rfl

/-! ## What was read -/

/-- An entry of a document that passes its check is a value that does. -/
theorem exists_of_entry {α : Type} {key : String} {check : Pool → Value → Checked α}
    {document : Yaml.Document} {a : α} (h : Descriptor.entry key check document = .ok a) :
    ∃ v, check document.pool v = .ok a := by
  unfold Descriptor.entry at h
  split at h
  next entries _ =>
    split at h
    next => cases h
    next v _ =>
      split at h
      next found hfound =>
        cases h
        exact ⟨v, hfound⟩
      next => cases h
  next => cases h

/-- What was read from a file has passed its check. -/
theorem exists_of_read {α : Type} {path : Path} {key : String} {check : Pool → Value → Checked α}
    {a : α} (h : Descriptor.read t path key check = .ok a) : ∃ pool v, check pool v = .ok a := by
  unfold Descriptor.read at h
  split at h
  next => cases h
  next data _ =>
    unfold Descriptor.parse at h
    split at h
    next => cases h
    next document _ =>
      split at h
      next found hfound =>
        cases h
        obtain ⟨v, hv⟩ := exists_of_entry hfound
        exact ⟨document.pool, v, hv⟩
      next => cases h
      next => cases h

/-- An instrument that was read has a definition in range. -/
theorem valid_of_mem_instruments {paths : List Path} {i : Instrument}
    (hi : i ∈ instruments t paths) : i.definition.Valid := by
  obtain ⟨path, -, hpath⟩ := List.mem_filterMap.mp hi
  rw [readInstrument] at hpath
  cases hread : Descriptor.read t path "instrument" Definition.ofValue with
  | error fault => rw [hread] at hpath; cases hpath
  | ok definition =>
    rw [hread] at hpath
    cases hpath
    obtain ⟨pool, v, hv⟩ := exists_of_read hread
    exact Definition.valid_of_ofValue hv

/-! ## Instruments -/

/-- An ensemble of the instruments in some files, all of which can be read. -/
structure Loaded (t : FileTree) (paths : List Path) (e : Ensemble) : Prop where
  holds : e.Holds (instruments t paths)
  names : (instruments t paths).map Instrument.name = paths.map Path.stem

/-- The empty ensemble holds the instruments of no files. -/
theorem loaded_nil : Loaded t [] .empty := ⟨Ensemble.holds_empty, rfl⟩

/-- The instruments of files and one more are those of the files and that of the last. -/
theorem instruments_concat {earlier : List Path} {path : Path} {i : Instrument}
    (h : readInstrument t path = .ok i) :
    instruments t (earlier ++ [path]) = instruments t earlier ++ [i] := by
  simp [instruments, h, Except.toOption]

/-- The instrument of one file is added after the earlier ones, unless it cannot be read or its name
is taken. -/
theorem follows_loadInstrument {e : Ensemble} {earlier : List Path} (he : Loaded t earlier e)
    (path : Path) :
    Follows (firstFault? t c (instrumentSteps earlier path)) (Loaded t (earlier ++ [path]))
      (loadInstrument t e path).outcome := by
  simp only [firstFault?, instrumentSteps, List.findSome?_cons, List.findSome?_nil, Step.fault?,
    readInstrument, loadInstrument, Logged.outcome_bind, Logged.outcome_emit, Logged.outcome_lift]
  cases hread : Descriptor.read t path "instrument" Definition.ofValue with
  | error fault => exact rfl
  | ok definition =>
    have hinstrument : readInstrument t path = .ok ⟨path.stem, definition⟩ := by
      rw [readInstrument, hread]
      rfl
    simp only [Except.map, Except.mapError, Except.bind]
    by_cases hname : path.stem ∈ earlier.map Path.stem
    · rw [if_pos hname]
      rw [he.holds.add_of_mem (he.names.symm ▸ hname)]
      exact rfl
    · rw [if_neg hname]
      obtain ⟨next, hadd, hholds⟩ := he.holds.add_of_not_mem
        (i := ⟨path.stem, definition⟩) (he.names.symm ▸ hname)
      rw [hadd]
      refine ⟨next, ?_, ?_, ?_⟩
      · -- an instrument that is shadowed by an earlier one is only logged
        dsimp only
        split <;> rfl
      · rwa [instruments_concat hinstrument]
      · rw [instruments_concat hinstrument, List.map_append, List.map_append, he.names]
        rfl

/-- Loading files into an ensemble ends as the first fault of their steps says. -/
theorem follows_loadInstruments {e : Ensemble} {earlier : List Path} (he : Loaded t earlier e)
    (paths : List Path) :
    Follows (firstFault? t c (inOrder instrumentSteps earlier paths))
      (Loaded t (earlier ++ paths)) (loadInstruments t e paths).outcome := by
  induction paths generalizing e earlier with
  | nil => exact ⟨e, rfl, by rwa [List.append_nil]⟩
  | cons path paths ih =>
    rw [inOrder, firstFault?_append, loadInstruments, Logged.outcome_bind]
    -- the ensemble of the earlier files is where the later ones go on
    refine (follows_loadInstrument he path).bind fun next hnext => ?_
    have hrest := ih hnext
    rwa [List.append_assoc] at hrest

/-- Loading a directory ends as the first fault of its listing and its files says. -/
theorem follows_loadEnsemble (directory : Path) :
    Follows
      (firstFault? t c
        (listSteps t directory ++ inOrder instrumentSteps [] (files t directory)))
      (Loaded t (files t directory)) (loadEnsemble t directory).outcome := by
  rw [firstFault?_append, loadEnsemble, Logged.outcome_bind, Logged.outcome_lift]
  refine (follows_list directory).bind ?_
  rintro paths rfl
  rw [Logged.outcome_bind]
  have hloaded := follows_loadInstruments (c := c) (loaded_nil (t := t)) (files t directory)
  rw [← Option.or_none (o := firstFault? t c _)]
  exact hloaded.bind fun e he => ⟨e, rfl, he⟩

/-! ## Tracks -/

/-- An ensemble that plays what the instruments' files say, and nothing out of range. -/
structure Plays (t : FileTree) (c : Config) (e : Ensemble) : Prop where
  findByType : ∀ type, e.findByType type = player? t c type
  valid : e.Valid

/-- An ensemble that holds the instruments of the directory plays the parts as these do. -/
theorem Loaded.plays {e : Ensemble} (h : Loaded t (files t c.instruments) e) : Plays t c e :=
  ⟨h.holds.findByType, h.holds.valid fun _ => valid_of_mem_instruments⟩

/-- An assembly of the tracks in some files: its counter says how many of them took a channel, of
which there are no more than there is room for. -/
structure Assembled (t : FileTree) (c : Config) (paths : List Path) (a : Assembly) : Prop where
  counter : a.counter = counterAfter (taken t c paths)
  room : taken t c paths ≤ 15
  tempo : a.score.tempo = c.tempo

/-- A new assembly is that of no files. -/
theorem assembled_nil : Assembled t c [] (.start c.tempo) := ⟨rfl, Nat.zero_le 15, rfl⟩

/-- One more file takes one more channel or none. -/
theorem taken_concat (earlier : List Path) (path : Path) :
    taken t c (earlier ++ [path]) = taken t c earlier + if takesChannel t c path then 1 else 0 := by
  rw [taken, List.countP_append, List.countP_singleton, taken]

/-- A part that was read becomes a track unless its player is missing, the channels have run out, or
its notes cannot be laid out. -/
theorem follows_trackAfter {e : Ensemble} (he : Plays t c e) {earlier : List Path}
    (hroom : taken t c earlier ≤ 15) {path : Path} {part : Part}
    (hpart : readPart t path = .ok part) :
    Follows
      (firstFault? t c [.findPlayer path, .takeChannel earlier path, .layOut path])
      (fun _ => taken t c (earlier ++ [path]) ≤ 15)
      ((trackAfter e c.loops (taken t c earlier) path.name part).mapError BuildFault.part) := by
  simp only [firstFault?, List.findSome?_cons, List.findSome?_nil, Step.fault?, hpart, trackAfter,
    he.findByType, taken_concat]
  cases hplayer : player? t c part.instrument with
  | none => exact rfl
  | some i =>
    have htakes : takesChannel t c path = i.takesChannel := by
      simp only [takesChannel, hpart, hplayer, Option.any_some]
    simp only [htakes]
    by_cases hfull : i.takesChannel = true ∧ 15 ≤ taken t c earlier
    · -- the sixteenth to ask is the first that finds no channel
      have hcount : taken t c earlier = 15 := by omega
      rw [if_pos hfull, if_pos hfull, hcount]
      exact rfl
    · have hvalid := he.valid part.instrument i (by rw [he.findByType, hplayer]; rfl)
      rw [if_neg hfull, if_neg hfull, make_seatAfter hvalid hfull]
      dsimp only
      cases timeline i part.slots c.loops with
      | error fault => exact rfl
      | ok notes =>
        refine ⟨_, rfl, ?_⟩
        by_cases htaking : i.takesChannel = true
        · have hfree : ¬ 15 ≤ taken t c earlier := fun h => hfull ⟨htaking, h⟩
          rw [if_pos htaking]
          omega
        · rw [if_neg htaking]
          omega

/-- The track of one file is added after the earlier ones, unless one of its steps has a fault. -/
theorem follows_compilePart {e : Ensemble} (he : Plays t c e) (hloops : 1 ≤ c.loops)
    {earlier : List Path} {a : Assembly} (ha : Assembled t c earlier a) (path : Path) :
    Follows (firstFault? t c (trackSteps earlier path)) (Assembled t c (earlier ++ [path]))
      (compilePart t e c.loops a path).outcome := by
  have hsteps : trackSteps earlier path
      = [.readTrack path] ++ [.findPlayer path, .takeChannel earlier path, .layOut path] := rfl
  rw [hsteps, firstFault?_append, compilePart]
  simp only [Logged.outcome_bind, Logged.outcome_emit, Logged.outcome_emitAll,
    Logged.outcome_lift]
  cases hpart : readPart t path with
  | error fault =>
    simp only [firstFault?, List.findSome?_cons, List.findSome?_nil, Step.fault?, hpart]
    exact rfl
  | ok part =>
    have hread : firstFault? t c [.readTrack path] = none := by
      simp only [firstFault?, List.findSome?_cons, List.findSome?_nil, Step.fault?, hpart]
    obtain ⟨score, counter⟩ := a
    obtain ⟨rfl, hroom, htempo⟩ := ha
    have hfollows := follows_trackAfter he hroom hpart
    rw [hread, Option.none_or]
    simp only [Except.mapError, Except.bind]
    cases htrack : trackAfter e c.loops (taken t c earlier) path.name part with
    | error fault =>
      rw [htrack] at hfollows
      have hadd := addPart_of_error score htrack
      rw [follows_error_iff.mp hfollows]
      cases hstep : Assembly.addPart e c.loops ⟨score, counterAfter (taken t c earlier)⟩
          path.name part with
      | mk result after =>
        rw [hstep] at hadd
        subst hadd
        exact rfl
    | ok track =>
      rw [htrack] at hfollows
      obtain ⟨hnone, hroom'⟩ := follows_ok_iff.mp hfollows
      -- the length of the pattern is only logged, and known once the notes are laid out
      obtain ⟨i, -, -, -, -, hnotes⟩ := trackAfter_eq_ok htrack
      obtain ⟨length, hlength⟩ := exists_totalLength_of_timeline hnotes hloops
      have htakes : e.takesChannel part = takesChannel t c path := by
        simp only [takesChannel, hpart, Ensemble.takesChannel, he.findByType]
      rw [hnone, addPart_of_ok score htrack]
      dsimp only
      rw [hlength, htakes, ← taken_concat]
      exact ⟨_, rfl, rfl, hroom', htempo⟩

/-- Compiling files ends as the first fault of their steps says. -/
theorem follows_compileParts {e : Ensemble} (he : Plays t c e) (hloops : 1 ≤ c.loops)
    {earlier : List Path} {a : Assembly} (ha : Assembled t c earlier a) (compiled : List String)
    (paths : List Path) :
    Follows (firstFault? t c (inOrder trackSteps earlier paths))
      (fun result => Assembled t c (earlier ++ paths) result.1)
      (compileParts t e c.loops a compiled paths).outcome := by
  induction paths generalizing a earlier compiled with
  | nil => exact ⟨_, rfl, by rwa [List.append_nil]⟩
  | cons path paths ih =>
    rw [inOrder, firstFault?_append, compileParts, Logged.outcome_bind]
    refine (follows_compilePart he hloops ha path).bind fun next hnext => ?_
    have hrest := ih hnext (compiled ++ [path.name])
    rwa [List.append_assoc] at hrest

/-- Assembling a directory ends as the first fault of its listing and its files says. -/
theorem follows_assembleDirectory {e : Ensemble} (he : Plays t c e) (hloops : 1 ≤ c.loops) :
    Follows (firstFault? t c (listSteps t c.tracks ++ inOrder trackSteps [] (files t c.tracks)))
      (fun result => result.1.tempo = c.tempo)
      (assembleDirectory t e c.loops c.tempo c.tracks).outcome := by
  rw [firstFault?_append, assembleDirectory, Logged.outcome_bind, Logged.outcome_lift]
  refine (follows_list c.tracks).bind ?_
  rintro paths rfl
  rw [Logged.outcome_bind, ← Option.or_none (o := firstFault? t c _)]
  exact (follows_compileParts he hloops assembled_nil [] _).bind fun result ha =>
    ⟨_, rfl, ha.tempo⟩

/-! ## All steps -/

/-- All of a build but the writing ends with the fault of the first step that has one; if none has,
it succeeds. -/
theorem follows_compile (t : FileTree) {c : Config} (hc : c.Valid) (ticksPerBeat : Int) :
    Follows (firstFault? t c (steps t c)) (fun _ => True) (compile t c ticksPerBeat).outcome := by
  rw [steps, stepsOver, firstFault?_append, compile, Logged.outcome_bind]
  refine (follows_loadEnsemble c.instruments).bind fun e he => ?_
  rw [Logged.outcome_bind, ← Option.or_none (o := firstFault? t c _)]
  refine (follows_assembleDirectory he.plays hc.loops_pos).bind ?_
  rintro ⟨score, sources⟩ hscore
  have htempo : 20 ≤ score.tempo := hscore.symm ▸ hc.tempo_ge
  -- a valid tempo fits into its message, so the file can be made
  rw [Logged.outcome_bind, Logged.outcome_lift,
    Midi.ofScore_eq (by omega) (microseconds_le htempo) ticksPerBeat]
  exact ⟨_, rfl, trivial⟩

end Build

end Ostinato

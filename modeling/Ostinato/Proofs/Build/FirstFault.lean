import Ostinato.Proofs.Build.Effect
import Ostinato.Proofs.Build.Steps
import Ostinato.Proofs.Disk.Listing

/-!
# The first fault

A build that does not write fails exactly if one of its steps has a fault, and then with the fault
of the first such step. A step looks at its own files only, and so nothing that comes later has a
say in which fault this is. The main result is `build_first_fault`.
-/

namespace Ostinato

/-- Faults in two trees that are one, or both those of listing one directory in which not all can be
looked up: each is told of the name that comes first in its own tree. -/
inductive BuildFault.Alike (t t' : FileTree) : BuildFault → BuildFault → Prop
  | refl (fault : BuildFault) : Alike t t' fault fault
  | tooLong {directory : Path} {name name' : String} (h : t.FirstTooLong directory name)
      (h' : t'.FirstTooLong directory name') :
      Alike t t' (.directory (.disk (directory.child name) .tooLong))
        (.directory (.disk (directory.child name') .tooLong))

namespace Build

variable {t t' : FileTree} {c c' : Config}

/-! ## Steps in order -/

/-- A step of the files in order is one of some file, behind those in front of it. -/
theorem mem_inOrder {stepsOf : List Path → Path → List Step} {earlier paths : List Path} {s : Step}
    (h : s ∈ inOrder stepsOf earlier paths) :
    ∃ before path after,
      paths = before ++ path :: after ∧ s ∈ stepsOf (earlier ++ before) path := by
  induction paths generalizing earlier with
  | nil => cases h
  | cons path paths ih =>
    rw [inOrder] at h
    rcases List.mem_append.mp h with hfirst | hrest
    · exact ⟨[], path, paths, rfl, by rwa [List.append_nil]⟩
    · obtain ⟨before, path', after, rfl, hs⟩ := ih hrest
      refine ⟨path :: before, path', after, rfl, ?_⟩
      rwa [List.append_assoc] at hs

/-- The steps of two lists are those of the first and then, behind its files, those of the
second. -/
theorem inOrder_append (stepsOf : List Path → Path → List Step) (earlier paths paths' : List Path) :
    inOrder stepsOf earlier (paths ++ paths')
      = inOrder stepsOf earlier paths ++ inOrder stepsOf (earlier ++ paths) paths' := by
  induction paths generalizing earlier with
  | nil => rw [List.append_nil]; rfl
  | cons path paths ih =>
    rw [List.cons_append, inOrder, inOrder, ih, List.append_assoc, List.append_assoc]
    rfl

/-- More track files add their steps at the end. -/
theorem stepsOver_append (instrumentFiles trackFiles trackFiles' : List Path) :
    stepsOver t c instrumentFiles (trackFiles ++ trackFiles')
      = stepsOver t c instrumentFiles trackFiles ++ inOrder trackSteps trackFiles trackFiles' := by
  rw [stepsOver, stepsOver, inOrder_append, List.nil_append]
  simp only [List.append_assoc]

/-- Where some step has a fault, there is a first fault. -/
theorem exists_firstFault? {ss : List Step} (h : ∃ s ∈ ss, s.fault? t c ≠ none) :
    ∃ fault, firstFault? t c ss = some fault := by
  obtain ⟨s, hs, hfault⟩ := h
  apply Option.ne_none_iff_exists'.mp
  intro hnone
  exact hfault (firstFault?_eq_none_iff.mp hnone s hs)

/-! ## What a step looks at -/

/-- A step that looks at no files but some, and lists no directory. -/
def Step.Within (instrumentFiles trackFiles : List Path) : Step → Prop
  | findDirectory _ | lookUp _ => False
  | nameInstrument _ _ => True
  | readInstrument path => path ∈ instrumentFiles
  | readTrack path | findPlayer path | layOut path => path ∈ trackFiles
  | takeChannel earlier path => (∀ p ∈ earlier, p ∈ trackFiles) ∧ path ∈ trackFiles

/-- The steps of instrument files read nothing but these files. -/
theorem within_of_instrumentSteps {instrumentFiles : List Path} (trackFiles : List Path) {s : Step}
    (h : s ∈ inOrder instrumentSteps [] instrumentFiles) :
    s.Within instrumentFiles trackFiles := by
  obtain ⟨before, path, after, rfl, hs⟩ := mem_inOrder h
  simp only [instrumentSteps, List.mem_cons, List.not_mem_nil, or_false] at hs
  obtain rfl | rfl := hs
  · exact List.mem_append_right before List.mem_cons_self
  · exact trivial

/-- The steps of track files read nothing but these files and the instruments. -/
theorem within_of_trackSteps (instrumentFiles : List Path) {trackFiles : List Path} {s : Step}
    (h : s ∈ inOrder trackSteps [] trackFiles) : s.Within instrumentFiles trackFiles := by
  obtain ⟨before, path, after, rfl, hs⟩ := mem_inOrder h
  have hpath : path ∈ before ++ path :: after :=
    List.mem_append_right before List.mem_cons_self
  simp only [trackSteps, List.mem_cons, List.not_mem_nil, or_false] at hs
  obtain rfl | rfl | rfl | rfl := hs
  · exact hpath
  · exact hpath
  · exact ⟨fun p hp => List.mem_append_left _ hp, hpath⟩
  · exact hpath

/-- Two trees in which all instruments and some tracks are the same. -/
structure SameInput (t t' : FileTree) (c : Config) (trackFiles : List Path) : Prop where
  files_eq : ∀ directory, files t' directory = files t directory
  readInstrument_eq : ∀ p ∈ files t c.instruments, readInstrument t' p = readInstrument t p
  readPart_eq : ∀ p ∈ trackFiles, readPart t' p = readPart t p

namespace SameInput

variable {trackFiles : List Path}

/-- Trees with the same input have the same player for each type. -/
theorem player?_eq (h : SameInput t t' c trackFiles) (type : Text) :
    player? t' c type = player? t c type := by
  have hinstruments : instruments t' (files t c.instruments)
      = instruments t (files t c.instruments) := by
    refine List.filterMap_congr fun p hp => ?_
    rw [h.readInstrument_eq p hp]
  rw [player?, player?, h.files_eq, hinstruments]

/-- Trees with the same input agree on whether a file takes a channel. -/
theorem takesChannel_eq (h : SameInput t t' c trackFiles) {path : Path}
    (hpath : path ∈ trackFiles) : takesChannel t' c path = takesChannel t c path := by
  unfold takesChannel
  rw [h.readPart_eq path hpath]
  simp only [h.player?_eq]

/-- Trees with the same input agree on how many channels are taken by some files. -/
theorem taken_eq (h : SameInput t t' c trackFiles) {paths : List Path}
    (hpaths : ∀ p ∈ paths, p ∈ trackFiles) : taken t' c paths = taken t c paths := by
  refine List.countP_congr fun p hp => ?_
  rw [h.takesChannel_eq (hpaths p hp)]

/-- What a step says depends on those files alone that it looks at. -/
theorem fault?_eq (h : SameInput t t' c trackFiles) {s : Step}
    (hs : s.Within (files t c.instruments) trackFiles) : s.fault? t' c = s.fault? t c := by
  cases s with
  | findDirectory path => exact hs.elim
  | lookUp path => exact hs.elim
  | readInstrument path => rw [Step.fault?, Step.fault?, h.readInstrument_eq path hs]
  | nameInstrument earlier path => rfl
  | readTrack path => rw [Step.fault?, Step.fault?, h.readPart_eq path hs]
  | findPlayer path =>
    rw [Step.fault?, Step.fault?, h.readPart_eq path hs]
    simp only [h.player?_eq]
  | takeChannel earlier path =>
    rw [Step.fault?, Step.fault?, h.taken_eq hs.1, h.takesChannel_eq hs.2]
  | layOut path =>
    rw [Step.fault?, Step.fault?, h.readPart_eq path hs]
    simp only [h.player?_eq]

end SameInput

/-- Steps that say the same of two inputs find the same first fault. -/
theorem firstFault?_congr {ss : List Step} (h : ∀ s ∈ ss, s.fault? t' c' = s.fault? t c) :
    firstFault? t' c' ss = firstFault? t c ss := by
  induction ss with
  | nil => rfl
  | cons s ss ih =>
    have hrest := ih fun s' hs' => h s' (List.mem_cons_of_mem s hs')
    unfold firstFault? at hrest ⊢
    rw [List.findSome?_cons, List.findSome?_cons, h s List.mem_cons_self, hrest]

/-! ## Two trees -/

/-- A file of a directory is found, if it is found at all, directly below the directory. -/
theorem place_of_mem_files {directory path : Path} (ht : t.WellFormed)
    (hpath : path ∈ files t directory) :
    ∃ here, t.find directory = .ok here ∧
      ∀ place, t.find path = .ok place → place = here.child path.name := by
  obtain ⟨⟨name, hname, rfl⟩, -⟩ := Descriptor.mem_sorted_iff.mp hpath
  obtain ⟨here, data, hfind, hfound, -⟩ := ht.mem_filesIn_iff.mp hname
  refine ⟨here, hfind, fun place hplace => ?_⟩
  rw [Descriptor.name_child]
  exact Except.ok.inj (hplace.symm.trans hfound)

/-- Two files of directories that are at one place have one directory and one name. -/
theorem same_of_find_eq {directory directory' p q : Path} {place : Place} (ht : t.WellFormed)
    (hp : p ∈ files t directory) (hq : q ∈ files t directory') (hplace : t.find p = .ok place)
    (hplace' : t.find q = .ok place) :
    (∃ here, t.find directory = .ok here ∧ t.find directory' = .ok here) ∧ p.name = q.name := by
  obtain ⟨here, hhere, hbelow⟩ := place_of_mem_files ht hp
  obtain ⟨here', hhere', hbelow'⟩ := place_of_mem_files ht hq
  have heq : here.child p.name = here'.child q.name :=
    (hbelow place hplace).symm.trans (hbelow' place hplace')
  obtain ⟨rfl, hname⟩ := Place.child_inj heq
  exact ⟨⟨here, hhere, hhere'⟩, hname⟩

/-- Two files of one directory that have one name are one file. -/
theorem eq_of_name_eq {directory p q : Path} (hp : p ∈ files t directory)
    (hq : q ∈ files t directory) (h : p.name = q.name) : p = q := by
  obtain ⟨⟨name, -, rfl⟩, -⟩ := Descriptor.mem_sorted_iff.mp hp
  obtain ⟨⟨name', -, rfl⟩, -⟩ := Descriptor.mem_sorted_iff.mp hq
  rw [Descriptor.name_child, Descriptor.name_child] at h
  rw [h]

/-- Trees that agree but for some files of tracks are the same input up to there. -/
theorem sameInput_of_agreesExcept {seen rest : List Path} (ht : t.WellFormed) (ht' : t'.WellFormed)
    (hdirectories : ∀ place, t.find c.instruments = .ok place → t.find c.tracks ≠ .ok place)
    (hfiles : files t c.tracks = seen ++ rest) (h : t.AgreesExcept t' (· ∈ rest)) :
    SameInput t t' c seen := by
  have hseen : ∀ p ∈ seen, p ∈ files t c.tracks := by
    intro p hp
    rw [hfiles]
    exact List.mem_append_left rest hp
  have hrest : ∀ q ∈ rest, q ∈ files t c.tracks := by
    intro q hq
    rw [hfiles]
    exact List.mem_append_right seen hq
  refine ⟨fun directory => ?files, fun p hp => ?instrument, fun p hp => ?part⟩
  case files => exact Descriptor.sorted_eq_of_perm (h.filesIn_perm ht ht' directory) directory
  case instrument =>
    -- a changed file stands in the directory of tracks, and this one in another
    have hread : t'.read p = t.read p := by
      apply h.read_eq
      intro place hplace q hq hplace'
      obtain ⟨⟨here, hhere, hhere'⟩, -⟩ := same_of_find_eq ht hp (hrest q hq) hplace hplace'
      exact hdirectories here hhere hhere'
    rw [readInstrument, Descriptor.read, hread, readInstrument, Descriptor.read]
  case part =>
    -- a changed file comes later in the same directory, where no name comes twice
    have hread : t'.read p = t.read p := by
      apply h.read_eq
      intro place hplace q hq hplace'
      obtain ⟨-, hname⟩ := same_of_find_eq ht (hseen p hp) (hrest q hq) hplace hplace'
      have hsame : p = q := eq_of_name_eq (hseen p hp) (hrest q hq) hname
      have hnodup : (files t c.tracks).Nodup :=
        Descriptor.nodup_sorted (ht.nodup_filesIn c.tracks) c.tracks
      rw [hfiles] at hnodup
      exact List.disjoint_of_nodup_append hnodup hp (hsame ▸ hq)
    rw [readPart, Descriptor.read, hread, readPart, Descriptor.read]

/-! ## Faults that are alike -/

section Rel

variable {ε : Type} {r : ε → ε → Prop} {a a' b b' : Option ε}

/-- A reflexive relation holds between a fault, or none, and itself. -/
theorem rel_of_eq (hr : ∀ fault, r fault fault) (h : a' = a) : Option.Rel r a a' := by
  subst h
  cases a' with
  | none => exact .none
  | some fault => exact .some (hr fault)

/-- First faults that are alike, of two computations one after the other. -/
theorem rel_or (h : Option.Rel r a a') (h' : Option.Rel r b b') :
    Option.Rel r (a.or b) (a'.or b') := by
  cases h with
  | none => exact h'
  | some h => exact .some h

/-- What is related to a fault is one. -/
theorem exists_of_rel {fault : ε} (h : Option.Rel r (some fault) a) :
    ∃ fault', a = some fault' ∧ r fault fault' := by
  cases h with
  | some h => exact ⟨_, rfl, h⟩

end Rel

/-- Steps over the same files find faults that are alike if those of listing the directories are. -/
theorem SameInput.rel_stepsOver {trackFiles : List Path} (h : SameInput t t' c trackFiles)
    {r : BuildFault → BuildFault → Prop} (hr : ∀ fault, r fault fault)
    (hinstruments : Option.Rel r (firstFault? t c (listSteps t c.instruments))
      (firstFault? t' c (listSteps t' c.instruments)))
    (htracks : Option.Rel r (firstFault? t c (listSteps t c.tracks))
      (firstFault? t' c (listSteps t' c.tracks))) :
    Option.Rel r (firstFault? t c (stepsOver t c (files t c.instruments) trackFiles))
      (firstFault? t' c (stepsOver t' c (files t' c.instruments) trackFiles)) := by
  simp only [stepsOver, firstFault?_append, h.files_eq]
  refine rel_or (rel_or hinstruments (rel_of_eq hr ?_)) (rel_or htracks (rel_of_eq hr ?_))
  · exact firstFault?_congr fun s hs => h.fault?_eq (within_of_instrumentSteps trackFiles hs)
  · exact firstFault?_congr fun s hs => h.fault?_eq (within_of_trackSteps _ hs)

/-- Directories that are listed the same have the same fault, if any. -/
theorem firstFault?_listSteps_congr {directory : Path}
    (h : Descriptor.list t' directory = Descriptor.list t directory) :
    firstFault? t' c (listSteps t' directory) = firstFault? t c (listSteps t directory) := by
  have hfollows := follows_list (t := t) (c := c) directory
  have hfollows' := follows_list (t := t') (c := c) directory
  rw [h] at hfollows'
  refine Option.ext fun fault => ?_
  rw [← hfollows'.eq_error_iff, ← hfollows.eq_error_iff]

/-- Two trees that agree but for some files list a directory with faults that are alike. -/
theorem rel_listSteps {changed : Path → Prop} (h : t.AgreesExcept t' changed) (ht : t.WellFormed)
    (ht' : t'.WellFormed) (directory : Path) :
    Option.Rel (BuildFault.Alike t t') (firstFault? t c (listSteps t directory))
      (firstFault? t' c (listSteps t' directory)) := by
  obtain hsame | ⟨name, name', hname, hname', hlist, hlist'⟩ :=
    Descriptor.list_eq_or_of_agreesExcept h ht ht' directory
  · exact rel_of_eq .refl (firstFault?_listSteps_congr hsame)
  · have hfirst := (follows_list (t := t) (c := c) directory).eq_error_iff.mp
      (mapError_eq_error_iff.mpr ⟨_, hlist, rfl⟩)
    have hfirst' := (follows_list (t := t') (c := c) directory).eq_error_iff.mp
      (mapError_eq_error_iff.mpr ⟨_, hlist', rfl⟩)
    rw [hfirst, hfirst']
    exact .some (.tooLong hname hname')

/-- A first fault that is found in the first of the tracks is the first fault of all steps. -/
theorem firstFault?_of_seen {seen rest : List Path} {fault : BuildFault}
    (hfiles : files t c.tracks = seen ++ rest)
    (h : firstFault? t c (stepsOver t c (files t c.instruments) seen) = some fault) :
    firstFault? t c (steps t c) = some fault := by
  rw [steps, hfiles, stepsOver_append, firstFault?_append, h]
  rfl

/-- A first fault that is found among the instruments is the first fault of all steps. -/
theorem firstFault?_of_instruments {fault : BuildFault}
    (h : firstFault? t c
      (listSteps t c.instruments ++ inOrder instrumentSteps [] (files t c.instruments))
        = some fault) :
    firstFault? t c (steps t c) = some fault := by
  rw [steps, stepsOver, firstFault?_append, h]
  rfl

/-- Steps of listing a directory and steps of instruments do not look at anything else that a build
is told. -/
theorem fault?_of_instrumentSteps {directory : Path} {s : Step} {paths : List Path}
    (hs : s ∈ listSteps t directory ++ inOrder instrumentSteps [] paths) :
    s.fault? t c' = s.fault? t c := by
  rw [List.mem_append, listSteps, List.mem_cons, List.mem_map] at hs
  obtain (rfl | ⟨name, -, rfl⟩) | hs := hs
  · rfl
  · rfl
  obtain ⟨before, path, after, -, hs⟩ := mem_inOrder hs
  simp only [instrumentSteps, List.mem_cons, List.not_mem_nil, or_false] at hs
  obtain rfl | rfl := hs
  · rfl
  · rfl

end Build

/-! ## Builds -/

variable {t : FileTree} {c : Config} {ticksPerBeat : Int}

/-- A build without writing ends as its first fault says. -/
theorem follows_build (t : FileTree) {c : Config} (hc : c.Valid) (ticksPerBeat : Int) :
    Follows (Build.firstFault? t c (Build.steps t c)) (fun _ => True)
      (build t c false ticksPerBeat).outcome := by
  rw [build_without_writing.1]
  exact Build.follows_compile t hc ticksPerBeat

/-- A build without writing fails with the fault of the first step that has one. -/
theorem build_eq_error_iff (hc : c.Valid) {fault : BuildFault} :
    (build t c false ticksPerBeat).outcome = .error fault ↔
      Build.firstFault? t c (Build.steps t c) = some fault :=
  (follows_build t hc ticksPerBeat).eq_error_iff

/-- A build without writing succeeds if no step has a fault. -/
theorem build_eq_ok_iff (hc : c.Valid) :
    (∃ result, (build t c false ticksPerBeat).outcome = .ok result) ↔
      Build.firstFault? t c (Build.steps t c) = none :=
  (follows_build t hc ticksPerBeat).exists_eq_ok_iff

/-- A build that does not write lists the instruments and goes through them in the order of their
file names, and then lists the tracks and goes through these. To list a directory is to find it and
to look up all that is in it. The build succeeds if no step has a fault, and otherwise it fails with
the fault of the first step that has one. So if a fault is found by the end of some first tracks,
trees that agree but for the contents of the other tracks give the same fault, provided that
instruments and tracks are in different directories; only if something in a directory cannot be
looked up, and the trees have its entries in different orders, the faults may name different entries
of it. And a file among the instruments that cannot be read, or whose name is taken, makes every
build with these instruments fail with one fault, whatever the tracks are. -/
theorem build_first_fault (t : FileTree) {c : Config} (hc : c.Valid) (ticksPerBeat : Int) :
    (∀ directory,
      (Build.files t directory).Pairwise (fun p q => p.name ≤ q.name) ∧
      ∀ path, path ∈ Build.files t directory ↔
        (∃ name ∈ t.namesIn directory, directory.child name = path) ∧
          t.isFile path = .ok true ∧ Descriptor.isDescriptor path = true) ∧
    (∀ fault, (build t c false ticksPerBeat).outcome = .error fault ↔
      ∃ before step after, Build.steps t c = before ++ step :: after ∧
        (∀ s ∈ before, s.fault? t c = none) ∧ step.fault? t c = some fault) ∧
    ((∃ result, (build t c false ticksPerBeat).outcome = .ok result) ↔
      ∀ s ∈ Build.steps t c, s.fault? t c = none) ∧
    (∀ (t' : FileTree) (seen rest : List Path), t.WellFormed → t'.WellFormed →
      (∀ place, t.find c.instruments = .ok place → t.find c.tracks ≠ .ok place) →
      Build.files t c.tracks = seen ++ rest →
      (∃ s ∈ Build.stepsOver t c (Build.files t c.instruments) seen, s.fault? t c ≠ none) →
      t.AgreesExcept t' (· ∈ rest) →
      ∃ fault fault', (build t c false ticksPerBeat).outcome = .error fault ∧
        (build t' c false ticksPerBeat).outcome = .error fault' ∧ fault.Alike t t' fault' ∧
        (t'.namesIn c.instruments = t.namesIn c.instruments →
          t'.namesIn c.tracks = t.namesIn c.tracks → fault' = fault)) ∧
    (∀ s ∈ Build.inOrder Build.instrumentSteps [] (Build.files t c.instruments),
      s.fault? t c ≠ none →
      ∃ fault, ∀ c' : Config, c'.Valid → c'.instruments = c.instruments →
        (build t c' false ticksPerBeat).outcome = .error fault) := by
  refine ⟨fun directory => ⟨Descriptor.pairwise_sorted _ _, fun path => Build.mem_files_iff⟩,
    fun fault => ?_, ?_, ?agreement, ?instruments⟩
  · rw [build_eq_error_iff hc, Build.firstFault?_eq_some_iff]
  · rw [build_eq_ok_iff hc, Build.firstFault?_eq_none_iff]
  case agreement =>
    intro t' seen rest ht ht' hdirectories hfiles hfault hagree
    have hsame := Build.sameInput_of_agreesExcept ht ht' hdirectories hfiles hagree
    have hfiles' : Build.files t' c.tracks = seen ++ rest := by
      rw [hsame.files_eq, hfiles]
    obtain ⟨fault, hfirst⟩ := Build.exists_firstFault? hfault
    -- the files are the same in both trees, so only their listings can tell them apart
    have halike := hsame.rel_stepsOver .refl (Build.rel_listSteps hagree ht ht' c.instruments)
      (Build.rel_listSteps hagree ht ht' c.tracks)
    rw [hfirst] at halike
    obtain ⟨fault', hfirst', halike⟩ := Build.exists_of_rel halike
    refine ⟨fault, fault', (build_eq_error_iff hc).mpr (Build.firstFault?_of_seen hfiles hfirst),
      (build_eq_error_iff hc).mpr (Build.firstFault?_of_seen hfiles' hfirst'), halike,
      fun hinstruments htracks => ?_⟩
    have hlist : ∀ directory, t'.namesIn directory = t.namesIn directory →
        Option.Rel Eq (Build.firstFault? t c (Build.listSteps t directory))
          (Build.firstFault? t' c (Build.listSteps t' directory)) := fun directory hnames =>
      Build.rel_of_eq (fun _ => rfl) (Build.firstFault?_listSteps_congr
        (Descriptor.list_eq_of_namesIn_eq hagree hnames))
    have hequal :=
      hsame.rel_stepsOver (fun _ => rfl) (hlist _ hinstruments) (hlist _ htracks)
    rw [hfirst, hfirst'] at hequal
    cases hequal with
    | some heq => exact heq.symm
  case instruments =>
    intro s hs hfault
    obtain ⟨fault, hfirst⟩ := Build.exists_firstFault?
      ⟨s, List.mem_append_right (Build.listSteps t c.instruments) hs, hfault⟩
    refine ⟨fault, fun c' hc' hinstruments => (build_eq_error_iff hc').mpr ?_⟩
    apply Build.firstFault?_of_instruments
    rw [hinstruments, ← hfirst]
    exact Build.firstFault?_congr fun s' hs' => Build.fault?_of_instrumentSteps hs'

/-- The configuration of a style with its instruments in `i` and its tracks in `t`. -/
def smallStyle : Config :=
  ⟨⟨.working, ["i"]⟩, ⟨.working, ["t"]⟩, ⟨.working, ["out.mid"]⟩, 1, 120⟩

/-- A style without instruments, whose first track is no text. -/
def unreadableTrack (second : List UInt8) : FileTree := ⟨[
  (⟨false, ["i"]⟩, .directory), (⟨false, ["t"]⟩, .directory),
  (⟨false, ["t", "b.yaml"]⟩, .file second), (⟨false, ["t", "a.yaml"]⟩, .file [0xff])]⟩

/-- A style without tracks, whose instrument is no text. -/
def unreadableInstrument : FileTree := ⟨[
  (⟨false, ["i"]⟩, .directory), (⟨false, ["t"]⟩, .directory),
  (⟨false, ["i", "x.yml"]⟩, .file [0xff])]⟩

/-- The first track's fault is that of the build, whatever the second holds; an instrument's fault
is that of the build though there is no track. -/
theorem build_first_fault_of_unreadable_files :
    smallStyle.Valid ∧
    (build (unreadableTrack [1]) smallStyle false 480).outcome
      = .error (.descriptor (.malformed ⟨.working, ["t", "a.yaml"]⟩ .encoding)) ∧
    (∃ fault, (build (unreadableTrack [1]) smallStyle false 480).outcome = .error fault ∧
      (build (unreadableTrack [2]) smallStyle false 480).outcome = .error fault) ∧
    ∃ fault, (build unreadableInstrument smallStyle false 480).outcome = .error fault := by
  let a : Path := ⟨.working, ["t", "a.yaml"]⟩
  let b : Path := ⟨.working, ["t", "b.yaml"]⟩
  let x : Path := ⟨.working, ["i", "x.yml"]⟩
  have hvalid : smallStyle.Valid := ⟨by decide, by decide, by decide⟩
  have hbytes : Yaml.Document.ofBytes [0xff] = .error .encoding := by cbv
  have htrack : (Build.Step.readTrack a).fault? (unreadableTrack [1]) smallStyle
      = some (.descriptor (.malformed a .encoding)) := by
    have hread : (unreadableTrack [1]).read a = .ok [0xff] := by cbv
    rw [Build.Step.fault?, Build.readPart, Descriptor.read_eq_error hread hbytes]
    rfl
  have hinstrument : (Build.Step.readInstrument x).fault? unreadableInstrument smallStyle
      = some (.descriptor (.malformed x .encoding)) := by
    have hread : unreadableInstrument.read x = .ok [0xff] := by cbv
    rw [Build.Step.fault?, Build.readInstrument, Descriptor.read_eq_error hread hbytes]
    rfl
  have hnone : Build.files (unreadableTrack [1]) smallStyle.instruments = [] := by cbv
  have hfiles : Build.files (unreadableTrack [1]) smallStyle.tracks = [a] ++ [b] := by
    have hlisted : (unreadableTrack [1]).filesIn smallStyle.tracks = ["b.yaml", "a.yaml"] := by cbv
    have hle : ¬ "b.yaml" ≤ "a.yaml" := by decide
    have hsorted : ["b.yaml", "a.yaml"].mergeSort (fun a b => decide (a ≤ b))
        = ["a.yaml", "b.yaml"] := by simp [List.mergeSort, hle]
    rw [Build.files, hlisted, Descriptor.sorted, hsorted]
    cbv
  have hlisted : Build.files unreadableInstrument smallStyle.instruments = [x] := by cbv
  have hagree : (unreadableTrack [1]).AgreesExcept (unreadableTrack [2]) (· ∈ [b]) := by
    intro place
    by_cases hplace : place = ⟨false, ["t", "b.yaml"]⟩
    · subst hplace
      exact Or.inr ⟨⟨b, List.mem_cons_self, by cbv⟩, [1], [2], by cbv, by cbv⟩
    · left
      simp only [unreadableTrack, FileTree.get?, FileTree.lookup_entry, if_neg hplace]
  obtain ⟨-, hfirst, -, htwo, -⟩ := build_first_fault (unreadableTrack [1]) hvalid 480
  obtain ⟨-, -, -, -, hbad⟩ := build_first_fault unreadableInstrument hvalid 480
  refine ⟨hvalid, ?first, ?agreement, ?instrument⟩
  case first =>
    have hsteps : Build.steps (unreadableTrack [1]) smallStyle
        = [.findDirectory smallStyle.instruments, .findDirectory smallStyle.tracks, .lookUp b,
            .lookUp a] ++ .readTrack a :: ([.findPlayer a, .takeChannel [] a, .layOut a] ++
            Build.inOrder Build.trackSteps [a] [b]) := by
      have hi : (unreadableTrack [1]).namesIn smallStyle.instruments = [] := by cbv
      have ht : (unreadableTrack [1]).namesIn smallStyle.tracks = ["b.yaml", "a.yaml"] := by cbv
      rw [Build.steps, hnone, hfiles, Build.stepsOver, Build.listSteps, Build.listSteps, hi, ht]
      rfl
    refine (hfirst _).mpr ⟨_, _, _, hsteps, fun s hs => ?_, htrack⟩
    simp only [List.mem_cons, List.not_mem_nil, or_false] at hs
    obtain rfl | rfl | rfl | rfl := hs
    · cbv
    · cbv
    · cbv
    · cbv
  case agreement =>
    have hapart : ∀ place, (unreadableTrack [1]).find smallStyle.instruments = .ok place →
        (unreadableTrack [1]).find smallStyle.tracks ≠ .ok place := by
      intro place hplace hplace'
      have hi : (unreadableTrack [1]).find smallStyle.instruments = .ok ⟨false, ["i"]⟩ := by cbv
      have ht : (unreadableTrack [1]).find smallStyle.tracks = .ok ⟨false, ["t"]⟩ := by cbv
      rw [ht, ← hplace, hi] at hplace'
      simp at hplace'
    have hseen : .readTrack a ∈ Build.stepsOver (unreadableTrack [1]) smallStyle
        (Build.files (unreadableTrack [1]) smallStyle.instruments) [a] :=
      List.mem_append_right _ (List.mem_append_right _ List.mem_cons_self)
    obtain ⟨fault, fault', hfault, hfault', -, hsame⟩ := htwo (unreadableTrack [2]) [a] [b]
      ⟨by decide, by decide⟩ ⟨by decide, by decide⟩ hapart hfiles
      ⟨_, hseen, by rw [htrack]; exact Option.some_ne_none _⟩ hagree
    obtain rfl := hsame (by cbv) (by cbv)
    exact ⟨_, hfault, hfault'⟩
  case instrument =>
    obtain ⟨fault, hfault⟩ := hbad (.readInstrument x) (by rw [hlisted]; exact List.mem_cons_self)
      (by rw [hinstrument]; exact Option.some_ne_none _)
    exact ⟨fault, hfault smallStyle hvalid rfl⟩

/-- The far directory holds no descriptor. -/
theorem Build.files_farTree : Build.files farTree (detourPath 818) = [] := by
  rw [Build.files, filesIn_farTree, Descriptor.sorted, List.mergeSort_nil]
  rfl

/-- That directories are there and that their files are right is not enough for a build. -/
theorem not_forall_build_of_files :
    ¬ ∀ (t : FileTree) (c : Config) (ticksPerBeat : Int), c.Valid →
      (∀ s ∈ [.findDirectory c.instruments] ++
          Build.inOrder Build.instrumentSteps [] (Build.files t c.instruments) ++
          ([.findDirectory c.tracks] ++
            Build.inOrder Build.trackSteps [] (Build.files t c.tracks)),
        s.fault? t c = none) →
      ∃ result, (build t c false ticksPerBeat).outcome = .ok result := by
  intro h
  let c : Config := ⟨detourPath 818, ⟨.working, ["t"]⟩, ⟨.working, ["out.mid"]⟩, 4, 120⟩
  have htracks : Build.files farTree ⟨.working, ["t"]⟩ = [] := by cbv
  obtain ⟨result, hresult⟩ := h farTree c 480 ⟨by decide, by decide, by decide⟩ (by
    rw [Build.files_farTree, htracks]
    intro s hs
    simp only [Build.inOrder, List.append_nil, List.cons_append, List.nil_append, List.mem_cons,
      List.not_mem_nil, or_false] at hs
    obtain rfl | rfl := hs
    · rw [Build.Step.fault?, isDirectory_farTree]
    · cbv)
  rw [build_without_writing.1, Build.compile, Logged.outcome_bind, Build.loadEnsemble,
    Logged.outcome_bind, Logged.outcome_lift, list_farTree] at hresult
  cases hresult

end Ostinato

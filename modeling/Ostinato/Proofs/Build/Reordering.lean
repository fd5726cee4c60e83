import Ostinato.Proofs.Build.Effect
import Ostinato.Proofs.Build.Loading
import Ostinato.Proofs.Disk.Reordering

/-!
# Builds of a tree in another order

The order in which a file system gives the entries of its directories is no input of a build.
Descriptors are sorted by name, and no two of a directory have the same, so what a build loads and
compiles is the same for every order, and then what it logs, its score or its fault, and what it
writes (`build_of_reorders`). The order shows in one fault only: of several entries that cannot be
looked up the first is told.
-/

namespace Ostinato

namespace Build

variable {t t' : FileTree}

/-! ## Loading and compiling -/

/-- A descriptor is read the same in reordered trees. -/
theorem read_of_reorders {α : Type} (h : t.Reorders t') (path : Path) (key : String)
    (check : Pool → Value → Checked α) :
    Descriptor.read t' path key check = Descriptor.read t path key check := by
  unfold Descriptor.read
  rw [h.read_eq]

/-- An instrument is loaded the same in reordered trees. -/
theorem loadInstrument_of_reorders (h : t.Reorders t') (e : Ensemble) (path : Path) :
    loadInstrument t' e path = loadInstrument t e path := by
  unfold loadInstrument
  rw [read_of_reorders h]

/-- Instruments from given files are loaded the same in reordered trees. -/
theorem loadInstruments_of_reorders (h : t.Reorders t') (e : Ensemble) (paths : List Path) :
    loadInstruments t' e paths = loadInstruments t e paths := by
  induction paths generalizing e with
  | nil => rfl
  | cons path paths ih =>
    rw [loadInstruments, loadInstruments, loadInstrument_of_reorders h]
    simp only [ih]

/-- If all in a directory can be looked up, its ensemble, and so who plays for a type, is the
same. -/
theorem loadEnsemble_of_reorders (h : t.Reorders t') {directory : Path}
    (hlistable : t.Listable directory) : loadEnsemble t' directory = loadEnsemble t directory := by
  unfold loadEnsemble
  simp only [h.list_eq hlistable, loadInstruments_of_reorders h]

/-- Given files are compiled the same in reordered trees. -/
theorem compileParts_of_reorders (h : t.Reorders t') (e : Ensemble) (loops : Int) (a : Assembly)
    (compiled : List String) (paths : List Path) :
    compileParts t' e loops a compiled paths = compileParts t e loops a compiled paths :=
  compileParts_congr (fun p _ => read_of_reorders h p "track" Part.ofValue)
    (fun _ _ _ _ => rfl) a compiled

/-- If all in both directories can be looked up, a build compiles the same. -/
theorem compile_of_reorders (h : t.Reorders t') {c : Config}
    (hinstruments : t.Listable c.instruments) (htracks : t.Listable c.tracks)
    (ticksPerBeat : Int) :
    compile t' c ticksPerBeat = compile t c ticksPerBeat := by
  unfold compile assembleDirectory
  simp only [loadEnsemble_of_reorders h hinstruments, h.list_eq htracks, compileParts_of_reorders h]

/-! ## Computations that end alike -/

section Alike

variable {α β : Type}

/-- Two outcomes that are one, or faults that are alike. -/
inductive OutcomesAlike (t t' : FileTree) : Except BuildFault α → Except BuildFault α → Prop
  | ok (a : α) : OutcomesAlike t t' (.ok a) (.ok a)
  | error {fault fault' : BuildFault} (h : fault.Alike t t' fault') :
      OutcomesAlike t t' (.error fault) (.error fault')

/-- Every outcome is like itself. -/
theorem OutcomesAlike.refl (x : Except BuildFault α) : OutcomesAlike t t' x x := by
  cases x with
  | error fault => exact .error (.refl fault)
  | ok a => exact .ok a

/-- Two computations that log the same and have outcomes that are alike. -/
structure EndsAlike (t t' : FileTree) (x x' : Logged BuildFault α) : Prop where
  log_eq : x'.log = x.log
  outcome : OutcomesAlike t t' x.outcome x'.outcome

/-- Every computation ends like itself. -/
theorem EndsAlike.refl (x : Logged BuildFault α) : EndsAlike t t' x x := ⟨rfl, .refl _⟩

/-- Where two computations run one after the other, a fault ends both. -/
theorem EndsAlike.bind {x x' : Logged BuildFault α} {f f' : α → Logged BuildFault β}
    (h : EndsAlike t t' x x') (hf : ∀ a, EndsAlike t t' (f a) (f' a)) :
    EndsAlike t t' (x >>= f) (x' >>= f') := by
  obtain ⟨log, outcome⟩ := x
  obtain ⟨log', outcome'⟩ := x'
  obtain ⟨hlog, houtcome⟩ := h
  dsimp only at hlog houtcome
  subst hlog
  cases houtcome with
  | error hfault => exact ⟨rfl, .error hfault⟩
  | ok a => exact ⟨congrArg (log' ++ ·) (hf a).log_eq, (hf a).outcome⟩

end Alike

/-- In reordered trees a directory is listed alike. -/
theorem endsAlike_list (h : t.Reorders t') (directory : Path) :
    EndsAlike t t' (Logged.lift BuildFault.directory (Descriptor.list t directory))
      (Logged.lift BuildFault.directory (Descriptor.list t' directory)) := by
  obtain hsame | ⟨name, name', hname, hname', hlist, hlist'⟩ :=
    Descriptor.list_eq_or_of_agreesExcept h.agreesExcept h.wellFormed h.wellFormed' directory
  · rw [hsame]
    exact .refl _
  · rw [hlist, hlist']
    exact ⟨rfl, .error (.tooLong hname hname')⟩

/-- In reordered trees a directory is loaded alike. -/
theorem endsAlike_loadEnsemble (h : t.Reorders t') (directory : Path) :
    EndsAlike t t' (loadEnsemble t directory) (loadEnsemble t' directory) := by
  unfold loadEnsemble
  refine (endsAlike_list h directory).bind fun paths => ?_
  rw [loadInstruments_of_reorders h]
  exact .refl _

/-- In reordered trees a build compiles alike. -/
theorem endsAlike_compile (h : t.Reorders t') (c : Config) (ticksPerBeat : Int) :
    EndsAlike t t' (compile t c ticksPerBeat) (compile t' c ticksPerBeat) := by
  unfold compile assembleDirectory
  refine (endsAlike_loadEnsemble h c.instruments).bind fun e => ?_
  refine EndsAlike.bind ?_ fun _ => .refl _
  refine (endsAlike_list h c.tracks).bind fun paths => ?_
  rw [compileParts_of_reorders h]
  exact .refl _

/-! ## Writing -/

/-- A file is written in both trees or in neither, and it leaves them different in order only. -/
theorem writeMidi_of_reorders (h : t.Reorders t') (p : Path) (f : Midi.File) :
    (writeMidi t' p f).1 = (writeMidi t p f).1 ∧
      (writeMidi t p f).2.Reorders (writeMidi t' p f).2 := by
  have hmade := h.makeWay p.parent
  unfold writeMidi
  generalize t.makeWay p.parent = made at hmade
  generalize t'.makeWay p.parent = made' at hmade
  obtain ⟨outcome, hmade⟩ := hmade
  cases outcome with
  | error fault => exact ⟨rfl, hmade⟩
  | ok _ =>
    dsimp only
    obtain ⟨fault, hfault, hfault'⟩ | ⟨place, opened, opened', hopened, hopened', hbase, hopen⟩ :=
      hmade.openForWriting p
    · rw [hfault, hfault']
      exact ⟨rfl, hmade⟩
    · rw [hopened, hopened']
      dsimp only
      split <;> exact ⟨rfl, hopen.set hbase _⟩

end Build

/-! ## Builds -/

open Build

/-- A build logs the same, ends alike, and leaves trees that differ in order only. -/
theorem endsAlike_build {t t' : FileTree} (h : t.Reorders t') (c : Config) (write : Bool)
    (ticksPerBeat : Int) :
    (build t' c write ticksPerBeat).log = (build t c write ticksPerBeat).log ∧
      OutcomesAlike t t' (build t c write ticksPerBeat).outcome
        (build t' c write ticksPerBeat).outcome ∧
      (build t c write ticksPerBeat).tree.Reorders (build t' c write ticksPerBeat).tree := by
  have hcompiled := endsAlike_compile h c ticksPerBeat
  unfold build
  generalize compile t c ticksPerBeat = compiled at hcompiled
  generalize compile t' c ticksPerBeat = compiled' at hcompiled
  obtain ⟨log, outcome⟩ := compiled
  obtain ⟨log', outcome'⟩ := compiled'
  obtain ⟨hlog, houtcome⟩ := hcompiled
  dsimp only at hlog houtcome ⊢
  subst hlog
  cases houtcome with
  | error hfault => exact ⟨rfl, .error hfault, h⟩
  | ok result =>
    dsimp only
    split
    next =>
      have hwritten := writeMidi_of_reorders h c.output result.midi
      generalize writeMidi t c.output result.midi = written at hwritten
      generalize writeMidi t' c.output result.midi = written' at hwritten
      obtain ⟨outcome, left⟩ := written
      obtain ⟨outcome', left'⟩ := written'
      dsimp only at hwritten
      obtain ⟨rfl, hleft⟩ := hwritten
      cases outcome' with
      | error fault => exact ⟨rfl, .refl _, hleft⟩
      | ok _ => exact ⟨rfl, .refl _, hleft⟩
    next => exact ⟨rfl, .refl _, h⟩

/-- If all in both directories can be looked up, a build ends the same. -/
theorem outcome_build_of_reorders {t t' : FileTree} (h : t.Reorders t') {c : Config}
    (hinstruments : t.Listable c.instruments) (htracks : t.Listable c.tracks) (write : Bool)
    (ticksPerBeat : Int) :
    (build t' c write ticksPerBeat).outcome = (build t c write ticksPerBeat).outcome := by
  unfold build
  rw [compile_of_reorders h hinstruments htracks]
  dsimp only
  split
  next => rfl
  next result _ =>
    have hwritten := (writeMidi_of_reorders h c.output result.midi).1
    split
    next =>
      generalize writeMidi t c.output result.midi = written at hwritten
      generalize writeMidi t' c.output result.midi = written' at hwritten
      obtain ⟨outcome, left⟩ := written
      obtain ⟨outcome', left'⟩ := written'
      dsimp only at hwritten
      subst hwritten
      cases outcome' <;> rfl
    next => rfl

/-- However a file system orders the entries of its directories, each directory in which all can be
looked up lists the same descriptors: those of its files that have something in front of a suffix of
descriptors, in whatever case, each once and ordered by the numbers of the characters of their
names. A directory is never among them, nor is a file that is named by a suffix alone. So an
ensemble is the same, and with it the instrument that plays for a type, and a build logs the same,
gives the same score and the same file, or the same fault, and leaves the same in every place. A
directory in which something cannot be looked up is listed in no order: the first such entry is the
fault, and this alone the order decides. -/
theorem build_of_reorders {t t' : FileTree} (h : t.Reorders t') :
    (∀ directory, t.Listable directory →
      Descriptor.list t' directory = Descriptor.list t directory) ∧
    (∀ directory, t.isDirectory directory = .ok true → t.Listable directory →
      ∃ here paths, t.find directory = .ok here ∧ Descriptor.list t directory = .ok paths ∧
        Descriptor.Lists t directory here paths ∧
        (∀ names, names.Perm (t.filesIn directory) →
          Descriptor.sorted directory names = paths) ∧
        (∀ name, t.get? (here.child name) = some .directory → directory.child name ∉ paths) ∧
        ∀ suffix ∈ Descriptor.suffixes, directory.child suffix ∉ paths) ∧
    (∀ directory, t.isDirectory directory = .ok true → ¬ t.Listable directory →
      ∃ name name', t.FirstTooLong directory name ∧ t'.FirstTooLong directory name' ∧
        Descriptor.list t directory = .error (.disk (directory.child name) .tooLong) ∧
        Descriptor.list t' directory = .error (.disk (directory.child name') .tooLong)) ∧
    (∀ directory, t.Listable directory →
      loadEnsemble t' directory = loadEnsemble t directory) ∧
    ∀ c write ticksPerBeat,
      (build t' c write ticksPerBeat).log = (build t c write ticksPerBeat).log ∧
      (t.Listable c.instruments → t.Listable c.tracks →
        (build t' c write ticksPerBeat).outcome = (build t c write ticksPerBeat).outcome) ∧
      OutcomesAlike t t' (build t c write ticksPerBeat).outcome
        (build t' c write ticksPerBeat).outcome ∧
      (build t c write ticksPerBeat).tree.Reorders (build t' c write ticksPerBeat).tree ∧
      ∀ place, (build t' c write ticksPerBeat).tree.get? place
        = (build t c write ticksPerBeat).tree.get? place := by
  refine ⟨fun _ => h.list_eq, fun directory hdirectory hlistable => ?listing,
    fun directory hdirectory hunlistable => ?refused, fun _ => loadEnsemble_of_reorders h,
    fun c write ticksPerBeat => ?building⟩
  case listing =>
    obtain ⟨here, hfind, hhere⟩ := FileTree.isDirectory_iff.mp hdirectory
    have hlist : Descriptor.list t directory = .ok (files t directory) :=
      Descriptor.list_of_listable hdirectory hlistable
    have hlists := Descriptor.lists_sorted h.wellFormed hfind hhere hlistable (.refl _)
    exact ⟨here, _, hfind, hlist, hlists,
      fun names hnames => Descriptor.sorted_eq_of_perm hnames directory,
      fun name => hlists.not_mem_of_directory, fun suffix => hlists.not_mem_of_suffix⟩
  case refused =>
    obtain ⟨name, hname⟩ := FileTree.exists_firstTooLong hunlistable
    obtain ⟨name', hname'⟩ :=
      FileTree.exists_firstTooLong (mt (h.listable_iff directory).mp hunlistable)
    exact ⟨name, name', hname, hname', Descriptor.list_of_firstTooLong hdirectory hname,
      Descriptor.list_of_firstTooLong
        ((h.agreesExcept.isDirectory_eq directory).trans hdirectory) hname'⟩
  case building =>
    obtain ⟨hlog, houtcome, htree⟩ := endsAlike_build h c write ticksPerBeat
    exact ⟨hlog, fun hinstruments htracks =>
      outcome_build_of_reorders h hinstruments htracks write ticksPerBeat, houtcome, htree,
      htree.get?_eq⟩

/-- A file with a suffix in capitals is listed in both trees, and neither a file that is named by a
suffix nor a directory with the name of a descriptor is. -/
theorem build_of_reorders_of_reverse :
    let i : Path := ⟨.working, ["i"]⟩
    let t : FileTree := ⟨[(⟨false, ["i"]⟩, .directory), (⟨false, ["i", "b.yaml.yml"]⟩, .file []),
      (⟨false, ["i", ".yaml"]⟩, .file []), (⟨false, ["i", "b.YAML"]⟩, .file []),
      (⟨false, ["i", "c.yml"]⟩, .directory), (⟨false, ["t"]⟩, .directory)]⟩
    let t' : FileTree := ⟨t.entries.reverse⟩
    let c : Config := ⟨i, ⟨.working, ["t"]⟩, ⟨.working, ["out.mid"]⟩, 1, 120⟩
    t.namesIn i = ["b.yaml.yml", ".yaml", "b.YAML", "c.yml"] ∧
    t'.namesIn i = ["c.yml", "b.YAML", ".yaml", "b.yaml.yml"] ∧
    (∃ paths, Descriptor.list t i = .ok paths ∧ Descriptor.list t' i = .ok paths ∧
      i.child "b.YAML" ∈ paths ∧ i.child ".yaml" ∉ paths ∧ i.child "c.yml" ∉ paths) ∧
    (build t' c true 480).outcome = (build t c true 480).outcome := by
  intro i t t' c
  have hreorders : t.Reorders t' := ⟨⟨by decide, by decide⟩, t.entries.reverse_perm⟩
  have hi : t.namesIn i = ["b.yaml.yml", ".yaml", "b.YAML", "c.yml"] := by cbv
  have ht : t.namesIn ⟨.working, ["t"]⟩ = [] := by cbv
  have hlistable : t.Listable i := by
    unfold FileTree.Listable
    rw [hi]
    simp only [List.forall_mem_cons]
    -- each of the four names is found
    refine ⟨?_, ?_, ?_, ?_, List.forall_mem_nil _⟩
    all_goals
      cbv
      rintro ⟨⟩
  have hlistable' : t.Listable ⟨.working, ["t"]⟩ := by
    unfold FileTree.Listable
    rw [ht]
    exact List.forall_mem_nil _
  obtain ⟨hsame, hlisting, -, -, hbuild⟩ := build_of_reorders hreorders
  obtain ⟨here, paths, hfind, hlist, hlists, -, hdirectory, hsuffix⟩ :=
    hlisting i (by cbv) hlistable
  have hhere : t.find i = .ok ⟨false, ["i"]⟩ := by cbv
  obtain rfl : here = ⟨false, ["i"]⟩ := Except.ok.inj (hfind.symm.trans hhere)
  have hcapitals : Descriptor.IsDescriptorName "b.YAML" :=
    (@Descriptor.isDescriptor_child_iff i _).mp (by cbv)
  exact ⟨hi, by cbv, ⟨paths, hlist, (hsame i hlistable).trans hlist,
    hlists.child_mem_iff.mpr ⟨⟨[], by decide⟩, by cbv, hcapitals⟩,
    hsuffix ".yaml" List.mem_cons_self, hdirectory "c.yml" (by decide)⟩,
    (hbuild c true 480).2.1 hlistable hlistable'⟩

/-- A directory that is there need not be listed in any order. -/
theorem not_forall_list_of_reorders :
    ¬ ∀ (t t' : FileTree) (directory : Path), t.Reorders t' →
      t.isDirectory directory = .ok true →
      ∃ paths, Descriptor.list t directory = .ok paths ∧
        Descriptor.list t' directory = .ok paths := by
  intro h
  obtain ⟨paths, hlist, -⟩ := h farTree farTree (detourPath 818) ⟨wellFormed_farTree, .refl _⟩
    isDirectory_farTree
  rw [list_farTree] at hlist
  cases hlist

end Ostinato

import Ostinato.Proofs.Build.Directory
import Ostinato.Proofs.Build.Loading

/-!
# The instruments of a directory

A file is loaded if an instrument can be read from it and no earlier file has its stem.
`Refuses` says what is wrong with a file that is not loaded. The main result,
`loadEnsemble_file_by_file`, is that a directory in which all can be looked up is loaded as going
through its files says: what comes out is the ensemble of their instruments in order, or what is
wrong with the first file that is not loaded.
-/

namespace Ostinato

namespace Build

variable {t : FileTree} {e e' : Ensemble} {earlier paths : List Path} {path : Path}

/-! ## Without a log -/

/-- Adds the instrument of one file, without a log. -/
def addFile (t : FileTree) (e : Ensemble) (path : Path) : Except DescriptorFault Ensemble :=
  (readInstrument t path).bind fun i =>
    (e.add i).mapError fun fault => .malformed path (.duplicateName fault.name)

/-- Adds the instruments of files one after the other, without a log. -/
def addFiles (t : FileTree) (e : Ensemble) (paths : List Path) : Except DescriptorFault Ensemble :=
  paths.foldlM (addFile t) e

/-- Apart from its log, loading an instrument is adding the file. -/
theorem outcome_loadInstrument :
    (loadInstrument t e path).outcome = (addFile t e path).mapError .descriptor := by
  simp only [loadInstrument, addFile, readInstrument, Logged.outcome_bind, Logged.outcome_emit,
    Logged.outcome_lift]
  cases Descriptor.read t path "instrument" Definition.ofValue with
  | error fault => rfl
  | ok definition =>
    simp only [Except.map, Except.mapError, Except.bind]
    cases e.add ⟨path.stem, definition⟩ with
    | error fault => rfl
    | ok next =>
      -- whether an earlier instrument has the type is only logged
      dsimp only
      split <;> rfl

/-- Apart from their log, loading instruments is adding the files. -/
theorem outcome_loadInstruments :
    (loadInstruments t e paths).outcome = (addFiles t e paths).mapError .descriptor := by
  rw [addFiles, ← foldlM_mapError]
  induction paths generalizing e with
  | nil => rfl
  | cons path paths ih =>
    rw [loadInstruments, Logged.outcome_bind, outcome_loadInstrument, List.foldlM_cons]
    simp only [ih]
    rfl

/-- Apart from its log, loading a directory that is listed is adding its files to no instruments. -/
theorem outcome_loadEnsemble {directory : Path} (h : Descriptor.list t directory = .ok paths) :
    (loadEnsemble t directory).outcome = (addFiles t .empty paths).mapError .descriptor := by
  simp only [loadEnsemble, Logged.outcome_bind, Logged.outcome_lift, Logged.outcome_emit, h,
    outcome_loadInstruments, Except.mapError, Except.bind]
  cases addFiles t .empty paths <;> rfl

/-! ## Files that are loaded -/

/-- A file is added if an instrument can be read from it and added. -/
theorem addFile_eq_ok_iff :
    addFile t e path = .ok e' ↔ ∃ i, readInstrument t path = .ok i ∧ e.add i = .ok e' := by
  simp only [addFile, bind_eq_ok_iff, mapError_eq_ok_iff]

/-- Files that are all loaded make the ensemble of their instruments. -/
theorem addFiles_eq_ok_iff :
    addFiles t e paths = .ok e' ↔
      ∃ is, paths.mapM (readInstrument t) = .ok is ∧ e.addAll is = .ok e' := by
  rw [addFiles]
  induction paths generalizing e with
  | nil =>
    constructor
    · rintro ⟨⟩
      exact ⟨[], rfl, rfl⟩
    · rintro ⟨_, ⟨⟩, ⟨⟩⟩
      rfl
  | cons path paths ih =>
    simp only [foldlM_cons_eq_ok_iff, addFile_eq_ok_iff, mapM_cons_eq_ok_iff]
    constructor
    · rintro ⟨next, ⟨i, hi, hadd⟩, hrest⟩
      obtain ⟨is, his, haddAll⟩ := ih.mp hrest
      exact ⟨i :: is, ⟨i, is, hi, his, rfl⟩, by rw [Ensemble.addAll, hadd]; exact haddAll⟩
    · rintro ⟨_, ⟨i, is, hi, his, rfl⟩, haddAll⟩
      rw [Ensemble.addAll] at haddAll
      cases hadd : e.add i with
      | error fault =>
        rw [hadd] at haddAll
        cases haddAll
      | ok next =>
        rw [hadd] at haddAll
        exact ⟨next, ⟨i, hi, hadd⟩, ih.mpr ⟨is, his, haddAll⟩⟩

/-- A file can be read as an instrument if it can be read as a definition. -/
theorem exists_readInstrument_iff :
    (∃ i, readInstrument t path = .ok i) ↔
      ∃ d, Descriptor.read t path "instrument" Definition.ofValue = .ok d := by
  simp only [readInstrument, map_eq_ok_iff]
  constructor
  · rintro ⟨_, d, hd, -⟩
    exact ⟨d, hd⟩
  · rintro ⟨d, hd⟩
    exact ⟨_, d, hd, rfl⟩

/-- An instrument has the stem of its file for a name. -/
theorem name_of_readInstrument {i : Instrument} (h : readInstrument t path = .ok i) :
    i.name = path.stem := by
  obtain ⟨d, -, rfl⟩ := map_eq_ok_iff.mp h
  rfl

/-- Instruments are named by the stems of their files. -/
theorem names_of_mapM {is : List Instrument} (h : paths.mapM (readInstrument t) = .ok is) :
    is.map Instrument.name = paths.map Path.stem := by
  induction paths generalizing is with
  | nil =>
    cases h
    rfl
  | cons path paths ih =>
    obtain ⟨i, rest, hi, hrest, rfl⟩ := mapM_cons_eq_ok_iff.mp h
    rw [List.map_cons, List.map_cons, name_of_readInstrument hi, ih hrest]

/-- Files can all be loaded if all of them can be read and no stem comes twice. -/
theorem exists_addFiles_iff :
    (∃ e, addFiles t .empty paths = .ok e) ↔
      (∀ p ∈ paths, ∃ i, readInstrument t p = .ok i) ∧ (paths.map Path.stem).Nodup := by
  rw [← exists_mapM_iff]
  simp only [addFiles_eq_ok_iff]
  constructor
  · rintro ⟨e, is, his, hofList⟩
    obtain ⟨-, hnames⟩ := Ensemble.holds_of_ofList hofList
    exact ⟨⟨is, his⟩, names_of_mapM his ▸ hnames⟩
  · rintro ⟨⟨is, his⟩, hstems⟩
    obtain ⟨e, hofList, -⟩ := Ensemble.exists_ofList (names_of_mapM his ▸ hstems)
    exact ⟨e, is, his, hofList⟩

/-! ## Files that are not loaded -/

/-- What is wrong with a file behind some others. The name of a file that cannot be read is not
looked up. -/
inductive Refuses (t : FileTree) (earlier : List Path) (path : Path) : DescriptorFault → Prop
  | unreadable {fault : DescriptorFault}
      (hread : Descriptor.read t path "instrument" Definition.ofValue = .error fault) :
      Refuses t earlier path fault
  | repeated {d : Definition}
      (hread : Descriptor.read t path "instrument" Definition.ofValue = .ok d)
      (hstem : path.stem ∈ earlier.map Path.stem) :
      Refuses t earlier path (.malformed path (.duplicateName path.stem))

/-- Behind other files, adding one fails exactly as the file is refused. -/
theorem addFile_eq_error_iff (h : addFiles t .empty earlier = .ok e) {fault : DescriptorFault} :
    addFile t e path = .error fault ↔ Refuses t earlier path fault := by
  obtain ⟨is, his, hofList⟩ := addFiles_eq_ok_iff.mp h
  obtain ⟨hholds, -⟩ := Ensemble.holds_of_ofList hofList
  -- the names that are taken are the stems of the earlier files
  have hnames := names_of_mapM his
  rw [addFile, readInstrument]
  cases hread : Descriptor.read t path "instrument" Definition.ofValue with
  | error fault' =>
    constructor
    · rintro ⟨⟩
      exact .unreadable hread
    · rintro (hread' | hread')
      · rw [hread] at hread'
        cases hread'
        rfl
      · rw [hread] at hread'
        cases hread'
  | ok d =>
    simp only [Except.map, Except.bind]
    by_cases hstem : path.stem ∈ earlier.map Path.stem
    · rw [hholds.add_of_mem (hnames ▸ hstem)]
      constructor
      · rintro ⟨⟩
        exact .repeated hread hstem
      · rintro (hread' | -)
        · rw [hread] at hread'
          cases hread'
        · rfl
    · obtain ⟨next, hadd, -⟩ := hholds.add_of_not_mem (i := ⟨path.stem, d⟩) (hnames ▸ hstem)
      rw [hadd]
      constructor
      · rintro ⟨⟩
      · rintro (hread' | ⟨-, hstem'⟩)
        · rw [hread] at hread'
          cases hread'
        · exact absurd hstem' hstem

/-- Files fail as the first of them that is not loaded. -/
theorem addFiles_eq_error_iff {fault : DescriptorFault} :
    addFiles t .empty paths = .error fault ↔
      ∃ before p after, paths = before ++ p :: after ∧
        (∀ q ∈ before, ∃ i, readInstrument t q = .ok i) ∧ (before.map Path.stem).Nodup ∧
        Refuses t before p fault := by
  rw [addFiles, foldlM_eq_error_iff]
  constructor
  · rintro ⟨before, p, after, e, hpaths, hbefore, hp⟩
    obtain ⟨hreadable, hstems⟩ := exists_addFiles_iff.mp ⟨e, hbefore⟩
    exact ⟨before, p, after, hpaths, hreadable, hstems, (addFile_eq_error_iff hbefore).mp hp⟩
  · rintro ⟨before, p, after, hpaths, hreadable, hstems, hp⟩
    obtain ⟨e, hbefore⟩ := exists_addFiles_iff.mpr ⟨hreadable, hstems⟩
    exact ⟨before, p, after, e, hpaths, hbefore, (addFile_eq_error_iff hbefore).mpr hp⟩

/-! ## Two checks of a name -/

/-- Why a file is not registered. -/
inductive RegisterFault
  | descriptor (fault : DescriptorFault)
  | duplicate (fault : DuplicateName)

/-- Registers the instrument of one file. Its name is looked up before the ensemble is given the
instrument, and by the ensemble once more. -/
def register (t : FileTree) (e : Ensemble) (path : Path) : Except RegisterFault Ensemble :=
  match Descriptor.read t path "instrument" Definition.ofValue with
  | .error fault => .error (.descriptor fault)
  | .ok definition =>
    if e.contains path.stem then .error (.descriptor (.malformed path (.duplicateName path.stem)))
    else (e.add ⟨path.stem, definition⟩).mapError .duplicate

/-- Registers the instruments of files one after the other. -/
def registerAll (t : FileTree) (paths : List Path) : Except RegisterFault Ensemble :=
  paths.foldlM (register t) .empty

/-- What the first check lets through, the second does. -/
theorem register_eq : register t e path = (addFile t e path).mapError .descriptor := by
  rw [register, addFile, readInstrument]
  cases Descriptor.read t path "instrument" Definition.ofValue with
  | error fault => rfl
  | ok definition =>
    simp only [Except.map, Except.bind, Ensemble.add]
    by_cases hname : e.contains path.stem = true
    · rw [if_pos hname, if_pos hname]
      rfl
    · rw [if_neg hname, if_neg hname]
      rfl

/-- To register all files is to add them to no instruments. -/
theorem registerAll_eq : registerAll t paths = (addFiles t .empty paths).mapError .descriptor := by
  rw [registerAll, addFiles, ← foldlM_mapError]
  simp only [← register_eq]

/-! ## Who plays -/

/-- An instrument in one of some files, of a type that no file with a smaller name has. -/
def IsFirstOfType (t : FileTree) (paths : List Path) (type : Text) (i : Instrument) : Prop :=
  ∃ p ∈ paths, readInstrument t p = .ok i ∧ i.type = type ∧
    ∀ q ∈ paths, ∀ j, readInstrument t q = .ok j → j.type = type → p.name ≤ q.name

/-- A file of another type has no say in who is the first of a type. -/
theorem isFirstOfType_cons_iff {first i : Instrument} {type : Text}
    (hfirst : readInstrument t path = .ok first) (htype : first.type ≠ type) :
    IsFirstOfType t (path :: paths) type i ↔ IsFirstOfType t paths type i := by
  simp only [IsFirstOfType, List.exists_mem_cons_iff, List.forall_mem_cons]
  constructor
  · rintro (⟨hi, hsame, -⟩ | ⟨p, hp, hi, hsame, -, hleast⟩)
    · rw [hfirst] at hi
      cases hi
      exact absurd hsame htype
    · exact ⟨p, hp, hi, hsame, hleast⟩
  · rintro ⟨p, hp, hi, hsame, hleast⟩
    refine Or.inr ⟨p, hp, hi, hsame, fun j hj hsame' => ?_, hleast⟩
    rw [hfirst] at hj
    cases hj
    exact absurd hsame' htype

/-- Where names increase, the first instrument of a type is the one in the file with the smallest
name. -/
theorem find?_eq_some_iff_isFirstOfType {is : List Instrument}
    (h : paths.mapM (readInstrument t) = .ok is)
    (hnames : paths.Pairwise fun p q => p.name < q.name) {type : Text} {i : Instrument} :
    (is.find? fun i => i.type = type) = some i ↔ IsFirstOfType t paths type i := by
  induction paths generalizing is with
  | nil =>
    cases h
    simp [IsFirstOfType]
  | cons path paths ih =>
    obtain ⟨first, rest, hfirst, hrest, rfl⟩ := mapM_cons_eq_ok_iff.mp h
    obtain ⟨hsmaller, hnames⟩ := List.pairwise_cons.mp hnames
    by_cases htype : first.type = type
    -- the first file has the smallest name of all
    · rw [List.find?_cons_of_pos (by simpa using htype)]
      constructor
      · rintro ⟨⟩
        refine ⟨path, List.mem_cons_self, hfirst, htype, fun q hq j _ _ => ?_⟩
        rcases List.mem_cons.mp hq with rfl | hmem
        · exact le_rfl
        · exact (hsmaller q hmem).le
      · rintro ⟨p, hp, hi, -, hleast⟩
        rcases List.mem_cons.mp hp with rfl | hmem
        · rw [hfirst] at hi
          cases hi
          rfl
        · have hle := hleast path List.mem_cons_self _ hfirst htype
          exact absurd (hsmaller p hmem) (not_lt.mpr hle)
    · rw [List.find?_cons_of_neg (by simpa using htype), isFirstOfType_cons_iff hfirst htype]
      exact ih hrest hnames

/-- Files with different stems have different names. -/
theorem pairwise_name_lt (hnames : (paths.map Path.name).Pairwise (· ≤ ·))
    (hstems : (paths.map Path.stem).Nodup) : paths.Pairwise fun p q => p.name < q.name := by
  refine ((List.pairwise_map.mp hnames).and (List.pairwise_map.mp hstems)).imp ?_
  rintro p q ⟨hle, hstem⟩
  refine lt_of_le_of_ne hle fun hname => hstem ?_
  rw [Path.stem, hname, Path.stem]

/-! ## Directories -/

/-- A directory in which not all can be looked up is not loaded: the first such entry is the
fault. -/
theorem outcome_loadEnsemble_of_not_listable {directory : Path}
    (hdirectory : t.isDirectory directory = .ok true) (h : ¬ t.Listable directory) :
    ∃ name, t.FirstTooLong directory name ∧
      (loadEnsemble t directory).outcome
        = .error (.directory (.disk (directory.child name) .tooLong)) := by
  obtain ⟨name, hname⟩ := FileTree.exists_firstTooLong h
  refine ⟨name, hname, ?_⟩
  rw [loadEnsemble, Logged.outcome_bind, Logged.outcome_lift,
    Descriptor.list_of_firstTooLong hdirectory hname]
  rfl

/-- A directory is loaded file by file, in the order of the file names, if all that is in it can be
looked up; if something cannot be, the first that cannot is what is wrong. The directory is loaded
exactly if an instrument can be read from each of its files and no two files have one stem; what
comes out then is the ensemble of these instruments in this order, in which for a type the
instrument plays that is in the file with the smallest name. Otherwise what comes out is what is
wrong with the first file that cannot be read or whose stem an earlier file has. That the ensemble
itself refuses a name that is taken never shows: to look the name up twice is to look it up once. -/
theorem loadEnsemble_file_by_file {directory : Path}
    (hdirectory : t.isDirectory directory = .ok true) :
    (¬ t.Listable directory → ∃ name, t.FirstTooLong directory name ∧
      (loadEnsemble t directory).outcome
        = .error (.directory (.disk (directory.child name) .tooLong))) ∧
    (t.Listable directory → ∃ paths, Descriptor.list t directory = .ok paths ∧
      ((paths.map Path.name).Pairwise (· ≤ ·) ∧
        ∀ path, path ∈ paths ↔ (∃ name ∈ t.namesIn directory, directory.child name = path) ∧
          t.isFile path = .ok true ∧ Descriptor.isDescriptor path = true) ∧
      ((∃ e, (loadEnsemble t directory).outcome = .ok e) ↔
        (∀ p ∈ paths, ∃ d, Descriptor.read t p "instrument" Definition.ofValue = .ok d) ∧
          (paths.map Path.stem).Nodup) ∧
      (∀ e, (loadEnsemble t directory).outcome = .ok e ↔
        ∃ is, paths.mapM (readInstrument t) = .ok is ∧ Ensemble.ofList is = .ok e) ∧
      (∀ e, (loadEnsemble t directory).outcome = .ok e →
        ∀ type i, e.findByType type = some i ↔ IsFirstOfType t paths type i) ∧
      (∀ fault, (loadEnsemble t directory).outcome = .error fault ↔
        ∃ before p after reason, paths = before ++ p :: after ∧
          (∀ q ∈ before, ∃ d, Descriptor.read t q "instrument" Definition.ofValue = .ok d) ∧
          (before.map Path.stem).Nodup ∧ Refuses t before p reason ∧ fault = .descriptor reason) ∧
      (∀ e, registerAll t paths = .ok e ↔ (loadEnsemble t directory).outcome = .ok e) ∧
      (∀ fault, registerAll t paths = .error (.descriptor fault) ↔
        (loadEnsemble t directory).outcome = .error (.descriptor fault)) ∧
      ∀ fault, registerAll t paths ≠ .error (.duplicate fault)) := by
  refine ⟨outcome_loadEnsemble_of_not_listable hdirectory, fun hlistable => ?_⟩
  have hlist : Descriptor.list t directory = .ok (files t directory) :=
    Descriptor.list_of_listable hdirectory hlistable
  have hnames := pairwise_name_of_list hlist
  have houtcome := outcome_loadEnsemble hlist
  simp only [houtcome, registerAll_eq, mapError_eq_ok_iff, mapError_eq_error_iff,
    ← exists_readInstrument_iff]
  refine ⟨_, hlist, ⟨hnames, fun path => mem_files_iff⟩, exists_addFiles_iff,
    fun e => addFiles_eq_ok_iff, fun e he type i => ?plays, fun fault => ?refused,
    fun _ => Iff.rfl, fun fault => ?_, fun fault => ?_⟩
  case plays =>
    obtain ⟨is, his, hofList⟩ := addFiles_eq_ok_iff.mp he
    obtain ⟨hholds, hstems⟩ := Ensemble.holds_of_ofList hofList
    rw [hholds.findByType]
    exact find?_eq_some_iff_isFirstOfType his (pairwise_name_lt hnames (names_of_mapM his ▸ hstems))
  case refused =>
    simp only [addFiles_eq_error_iff]
    constructor
    · rintro ⟨reason, ⟨before, p, after, hpaths, hreadable, hbefore, hp⟩, rfl⟩
      exact ⟨before, p, after, reason, hpaths, hreadable, hbefore, hp, rfl⟩
    · rintro ⟨before, p, after, reason, hpaths, hreadable, hbefore, hp, rfl⟩
      exact ⟨reason, ⟨before, p, after, hpaths, hreadable, hbefore, hp⟩, rfl⟩
  · simp
  · rw [Ne, mapError_eq_error_iff]
    simp

/-- A directory of two stems in one order and two names in the other, and a directory of two files
with one stem. -/
def closeNames (first second third fourth : List UInt8) : FileTree := ⟨[
  (⟨false, ["i"]⟩, .directory),
  (⟨false, ["i", "a.yaml"]⟩, .file second),
  (⟨false, ["i", "a-b.yaml"]⟩, .file first),
  (⟨false, ["j"]⟩, .directory),
  (⟨false, ["j", "a.YML"]⟩, .file third),
  (⟨false, ["j", "a.yaml"]⟩, .file fourth)]⟩

/-- What is listed of the directory with close names. -/
theorem list_closeNames (first second third fourth : List UInt8) :
    let t := closeNames first second third fourth
    Descriptor.list t ⟨.working, ["i"]⟩
        = .ok [⟨.working, ["i", "a-b.yaml"]⟩, ⟨.working, ["i", "a.yaml"]⟩] ∧
      Descriptor.list t ⟨.working, ["j"]⟩
        = .ok [⟨.working, ["j", "a.YML"]⟩, ⟨.working, ["j", "a.yaml"]⟩] := by
  intro t
  have hnames : (t.namesIn ⟨.working, ["i"]⟩).Perm ["a-b.yaml", "a.yaml"] := by
    have horder : t.namesIn ⟨.working, ["i"]⟩ = ["a.yaml", "a-b.yaml"] := by cbv
    rw [horder]
    exact List.Perm.swap _ _ _
  have hnames' : (t.namesIn ⟨.working, ["j"]⟩).Perm ["a.YML", "a.yaml"] := by
    have horder : t.namesIn ⟨.working, ["j"]⟩ = ["a.YML", "a.yaml"] := by cbv
    rw [horder]
  refine ⟨Descriptor.list_of_namesIn (by cbv) hnames (by decide) ?_,
    Descriptor.list_of_namesIn (by cbv) hnames' (by decide) ?_⟩
  · rw [List.forall_mem_cons, List.forall_mem_singleton]
    exact ⟨⟨by cbv, by cbv⟩, by cbv, by cbv⟩
  · rw [List.forall_mem_cons, List.forall_mem_singleton]
    exact ⟨⟨by cbv, by cbv⟩, by cbv, by cbv⟩

/-- What stands in the files with close names. -/
theorem read_closeNames (first second third fourth : List UInt8) :
    let t := closeNames first second third fourth
    t.read ⟨.working, ["i", "a-b.yaml"]⟩ = .ok first ∧
      t.read ⟨.working, ["i", "a.yaml"]⟩ = .ok second ∧
      t.read ⟨.working, ["j", "a.YML"]⟩ = .ok third ∧
      t.read ⟨.working, ["j", "a.yaml"]⟩ = .ok fourth := by
  intro t
  exact ⟨by cbv, by cbv, by cbv, by cbv⟩

/-- A file with this text is read as an instrument of type keys. -/
theorem read_of_piano
    (h : t.read path = .ok "instrument: {type: keys, program: 1}".toUTF8.toList) :
    Descriptor.read t path "instrument" Definition.ofValue = .ok ⟨"keys", some 1, none⟩ :=
  Descriptor.read_eq_ok h <|
    (Descriptor.toOption_parse_eq path ⟨.working, []⟩ _ _ _).trans (by decide +kernel)

/-- Of two instruments of one type that one plays whose file has the smaller name, though its stem
is the greater. Of two files with one stem the second is refused for its content if it is no text,
and else for its name. -/
theorem loadEnsemble_file_by_file_of_close_names :
    let piano := "instrument: {type: keys, program: 1}".toUTF8.toList
    let organ := "instrument: {type: keys, program: 20}".toUTF8.toList
    let again : Path := ⟨.working, ["j", "a.yaml"]⟩
    (∃ e, (loadEnsemble (closeNames organ piano piano [0xff]) ⟨.working, ["i"]⟩).outcome = .ok e ∧
      e.findByType "keys" = some ⟨"a-b", ⟨"keys", some 20, none⟩⟩) ∧
    (loadEnsemble (closeNames organ piano piano [0xff]) ⟨.working, ["j"]⟩).outcome
      = .error (.descriptor (.malformed again .encoding)) ∧
    (loadEnsemble (closeNames organ piano piano piano) ⟨.working, ["j"]⟩).outcome
      = .error (.descriptor (.malformed again (.duplicateName "a"))) := by
  intro piano organ again
  obtain ⟨hlist, hlist'⟩ := list_closeNames organ piano piano [0xff]
  obtain ⟨-, hlist''⟩ := list_closeNames organ piano piano piano
  obtain ⟨horgan, hpiano, hthird, hfourth⟩ := read_closeNames organ piano piano [0xff]
  obtain ⟨-, -, hthird', hfourth'⟩ := read_closeNames organ piano piano piano
  have hlistable := (Descriptor.list_eq_ok_iff.mp hlist).2.1
  have hlistable' := (Descriptor.list_eq_ok_iff.mp hlist').2.1
  have hlistable'' := (Descriptor.list_eq_ok_iff.mp hlist'').2.1
  obtain ⟨paths, hpaths, -, hloaded, -, hplays, -⟩ :=
    (loadEnsemble_file_by_file (Descriptor.list_eq_ok_iff.mp hlist).1).2 hlistable
  obtain ⟨paths', hpaths', -, -, -, -, hrefused, -⟩ :=
    (loadEnsemble_file_by_file (Descriptor.list_eq_ok_iff.mp hlist').1).2 hlistable'
  obtain ⟨paths'', hpaths'', -, -, -, -, hrepeated, -⟩ :=
    (loadEnsemble_file_by_file (Descriptor.list_eq_ok_iff.mp hlist'').1).2 hlistable''
  obtain rfl := Except.ok.inj (hlist.symm.trans hpaths)
  obtain rfl := Except.ok.inj (hlist'.symm.trans hpaths')
  obtain rfl := Except.ok.inj (hlist''.symm.trans hpaths'')
  have hfirst : Descriptor.read (closeNames organ piano piano [0xff]) ⟨.working, ["i", "a-b.yaml"]⟩
      "instrument" Definition.ofValue = .ok ⟨"keys", some 20, none⟩ :=
    Descriptor.read_eq_ok horgan (by decide +kernel)
  have hbytes : Yaml.Document.ofBytes [0xff] = .error .encoding := by cbv
  refine ⟨?first, ?unreadable, ?repeated⟩
  case first =>
    obtain ⟨e, he⟩ := hloaded.mpr ⟨by
      rw [List.forall_mem_cons, List.forall_mem_singleton]
      exact ⟨⟨_, hfirst⟩, ⟨_, read_of_piano hpiano⟩⟩, by decide +kernel⟩
    refine ⟨e, he, (hplays e he _ _).mpr ⟨_, List.mem_cons_self, ?_, rfl, ?_⟩⟩
    · have hstem : (⟨.working, ["i", "a-b.yaml"]⟩ : Path).stem = "a-b" := by cbv
      rw [readInstrument, hfirst, hstem]
      rfl
    · rw [List.forall_mem_cons, List.forall_mem_singleton]
      exact ⟨fun _ _ _ => le_rfl, fun _ _ _ => by decide⟩
  case unreadable =>
    refine (hrefused _).mpr ⟨[_], again, [], _, rfl, ?_, by simp,
      .unreadable (Descriptor.read_eq_error hfourth hbytes), rfl⟩
    rw [List.forall_mem_singleton]
    exact ⟨_, read_of_piano hthird⟩
  case repeated =>
    have hstem : again.stem = "a" := by cbv
    have hstem' : (⟨.working, ["j", "a.YML"]⟩ : Path).stem = "a" := by cbv
    have hrefuses : Refuses (closeNames organ piano piano piano) [⟨.working, ["j", "a.YML"]⟩] again
        (.malformed again (.duplicateName again.stem)) :=
      .repeated (read_of_piano hfourth') (by
        rw [List.map_singleton, hstem, hstem']
        exact List.mem_cons_self)
    rw [hstem] at hrefuses
    refine (hrepeated _).mpr ⟨[_], again, [], _, rfl, ?_, by simp, hrefuses, rfl⟩
    rw [List.forall_mem_singleton]
    exact ⟨_, read_of_piano hthird'⟩

/-- That every file can be read and no stem comes twice is not enough to load a directory. -/
theorem not_forall_loadEnsemble_of_files :
    ¬ ∀ (t : FileTree) (directory : Path), t.isDirectory directory = .ok true →
      (∀ p ∈ files t directory,
        ∃ d, Descriptor.read t p "instrument" Definition.ofValue = .ok d) →
      ((files t directory).map Path.stem).Nodup →
      ∃ e, (loadEnsemble t directory).outcome = .ok e := by
  intro h
  obtain ⟨e, he⟩ := h farTree (detourPath 818) isDirectory_farTree
    (by rw [files_farTree]; exact fun p hp => absurd hp List.not_mem_nil)
    (by rw [files_farTree]; exact List.nodup_nil)
  rw [loadEnsemble, Logged.outcome_bind, Logged.outcome_lift, list_farTree] at he
  cases he

end Build

end Ostinato

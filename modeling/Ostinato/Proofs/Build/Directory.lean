import Ostinato.Proofs.Build.Steps
import Ostinato.Proofs.Disk.Agreement

/-!
# The tracks of a directory

A build reads a track, compiles it and notes the name of its file before it reads the next track.
The main result, `assembleDirectory_agrees`, is that the order does not matter: to read all tracks
first and then to assemble their parts leads to the same score, or to the same fault.
-/

namespace Ostinato

namespace Logged

variable {ε α β γ : Type}

/-- A last step that does nothing can be left out. -/
theorem andThen_done (x : Logged ε α) : x.andThen done = x := by
  obtain ⟨log, outcome⟩ := x
  cases outcome <;> simp [andThen, done]

/-- How steps are bracketed does not matter. -/
theorem andThen_assoc (x : Logged ε α) (f : α → Logged ε β) (g : β → Logged ε γ) :
    (x.andThen f).andThen g = x.andThen fun a => (f a).andThen g := by
  unfold andThen
  cases x.outcome with
  | error fault => rfl
  | ok a =>
    dsimp only
    cases (f a).outcome <;> simp

instance : LawfulMonad (Logged ε) :=
  LawfulMonad.mk' _ andThen_done (fun _ _ => rfl) andThen_assoc

end Logged

/-! ## Parts in order -/

/-- The assembly after a part, if it becomes a track. -/
def Assembly.after (e : Ensemble) (loops : Int) (a : Assembly) (p : String × Part) :
    Except PartFault Assembly :=
  match a.addPart e loops p.1 p.2 with
  | (.error fault, _) => .error fault
  | (.ok _, next) => .ok next

/-- Adding parts is adding the first one and then the others to what that leaves. -/
theorem Assembly.addParts_cons (e : Ensemble) (loops : Int) (a : Assembly) (p : String × Part)
    (parts : List (String × Part)) :
    Assembly.addParts e loops a (p :: parts)
      = (a.after e loops p).bind fun next => Assembly.addParts e loops next parts := by
  obtain ⟨source, part⟩ := p
  simp only [Assembly.addParts, Assembly.after]
  cases a.addPart e loops source part with
  | mk result next => cases result <;> rfl

/-- To add parts is to fold the adding of one part over them. -/
theorem Assembly.addParts_eq_foldlM (e : Ensemble) (loops : Int) (a : Assembly)
    (parts : List (String × Part)) :
    Assembly.addParts e loops a parts = parts.foldlM (Assembly.after e loops) a := by
  induction parts generalizing a with
  | nil => rfl
  | cons p parts ih =>
    rw [Assembly.addParts_cons, List.foldlM_cons]
    simp only [ih]
    rfl

namespace Build

variable {t : FileTree} {e : Ensemble} {loops : Int}

/-! ## Files in order -/

/-- To compile two lists of files is to compile the first and go on with the second. -/
theorem compileParts_append (a : Assembly) (compiled : List String) (paths paths' : List Path) :
    compileParts t e loops a compiled (paths ++ paths')
      = compileParts t e loops a compiled paths >>= fun result =>
          compileParts t e loops result.1 result.2 paths' := by
  induction paths generalizing a compiled with
  | nil => simp [compileParts]
  | cons path paths ih => simp [compileParts, ih]

/-- A file that can be read becomes a track as its part does: the length of the pattern, which is
only logged, is known by then. -/
theorem outcome_compilePart (hloops : 1 ≤ loops) (a : Assembly) {path : Path} {part : Part}
    (hpart : readPart t path = .ok part) :
    (compilePart t e loops a path).outcome
      = (a.after e loops (path.name, part)).mapError BuildFault.part := by
  simp only [compilePart, Logged.outcome_bind, Logged.outcome_emit, Logged.outcome_emitAll,
    Logged.outcome_lift, hpart, Except.mapError, Except.bind, Assembly.after]
  cases hadd : a.addPart e loops path.name part with
  | mk result next =>
    cases result with
    | error fault => rfl
    | ok track =>
      obtain ⟨i, -, hnotes⟩ := timeline_of_addPart hadd
      obtain ⟨length, hlength⟩ := exists_totalLength_of_timeline hnotes hloops
      dsimp only
      rw [hlength]
      rfl

/-- A file that cannot be read ends its compilation with the reason. -/
theorem outcome_compilePart_of_unreadable (a : Assembly) {path : Path} {fault : DescriptorFault}
    (h : readPart t path = .error fault) :
    (compilePart t e loops a path).outcome = .error (.descriptor fault) := by
  simp only [compilePart, Logged.outcome_bind, Logged.outcome_emit, Logged.outcome_lift, h]
  rfl

/-- Files that can all be read become tracks as their parts do, and all their names are noted. -/
theorem outcome_compileParts (hloops : 1 ≤ loops) {paths : List Path} {parts : List Part}
    (h : paths.mapM (readPart t) = .ok parts) (a : Assembly) (compiled : List String) :
    (compileParts t e loops a compiled paths).outcome
      = ((Assembly.addParts e loops a ((paths.map Path.name).zip parts)).mapError
          BuildFault.part).map fun next => (next, compiled ++ paths.map Path.name) := by
  induction paths generalizing a compiled parts with
  | nil =>
    cases h
    rw [List.map_nil, List.append_nil]
    rfl
  | cons path paths ih =>
    obtain ⟨part, rest, hpart, hrest, rfl⟩ := mapM_cons_eq_ok_iff.mp h
    rw [compileParts, Logged.outcome_bind, outcome_compilePart hloops a hpart, List.map_cons,
      List.zip_cons_cons, Assembly.addParts_cons]
    cases a.after e loops (path.name, part) with
    | error fault => rfl
    | ok next =>
      have hnext := ih hrest next (compiled ++ [path.name])
      rw [List.append_assoc] at hnext
      exact hnext

/-- Behind files that can be read, one that cannot ends the run if their parts have not done so. -/
theorem outcome_compileParts_of_unreadable (hloops : 1 ≤ loops) {before : List Path}
    {parts : List Part} (hbefore : before.mapM (readPart t) = .ok parts) {path : Path}
    {fault : DescriptorFault} (hpath : readPart t path = .error fault) (after : List Path)
    (a : Assembly) (compiled : List String) :
    (compileParts t e loops a compiled (before ++ path :: after)).outcome
      = match Assembly.addParts e loops a ((before.map Path.name).zip parts) with
        | .error first => .error (.part first)
        | .ok _ => .error (.descriptor fault) := by
  rw [compileParts_append, Logged.outcome_bind, outcome_compileParts hloops hbefore]
  cases Assembly.addParts e loops a ((before.map Path.name).zip parts) with
  | error first => rfl
  | ok next =>
    dsimp only [Except.mapError, Except.map, Except.bind]
    rw [compileParts, Logged.outcome_bind, outcome_compilePart_of_unreadable next hpath]
    rfl

/-! ## Directories -/

/-- A directory that is listed ends as the compilation of its files does. -/
theorem outcome_assembleDirectory {directory : Path} {paths : List Path}
    (hlist : Descriptor.list t directory = .ok paths) (tempo : Int) :
    (assembleDirectory t e loops tempo directory).outcome
      = (compileParts t e loops (.start tempo) [] paths).outcome.map fun result =>
          (result.1.score, result.2) := by
  simp only [assembleDirectory, Logged.outcome_bind, Logged.outcome_lift, hlist, Except.mapError,
    Except.bind]
  cases (compileParts t e loops (.start tempo) [] paths).outcome <;> rfl

/-- A directory is listed by the names of the files. -/
theorem pairwise_name_of_list {directory : Path} {paths : List Path}
    (hlist : Descriptor.list t directory = .ok paths) :
    (paths.map Path.name).Pairwise (· ≤ ·) := by
  obtain ⟨-, -, rfl⟩ := Descriptor.list_eq_ok_iff.mp hlist
  exact List.pairwise_map.mpr (Descriptor.pairwise_sorted _ _)

/-- The tracks of a directory are compiled in the order of their file names. If all of them can be
read, the score is the one that is assembled of their parts under their file names, and all of these
names are given in order, or the fault is that of assembling them. At a first file that cannot be
read the fault is that of assembling the parts before it, if there is one, and else that of reading
the file. And to assemble parts is to add them one by one to an empty score, from the first channel
on. -/
theorem assembleDirectory_agrees (e : Ensemble) {loops : Int} (hloops : 1 ≤ loops) (tempo : Int)
    {directory : Path} {paths : List Path} (hlist : Descriptor.list t directory = .ok paths) :
    (paths.map Path.name).Pairwise (· ≤ ·) ∧
    (∀ parts, paths.mapM (readPart t) = .ok parts →
      (assembleDirectory t e loops tempo directory).outcome
        = match assemble e loops tempo ((paths.map Path.name).zip parts) with
          | .ok score => .ok (score, paths.map Path.name)
          | .error fault => .error (.part fault)) ∧
    (∀ before path after parts fault, paths = before ++ path :: after →
      before.mapM (readPart t) = .ok parts → readPart t path = .error fault →
      (assembleDirectory t e loops tempo directory).outcome
        = match assemble e loops tempo ((before.map Path.name).zip parts) with
          | .ok _ => .error (.descriptor fault)
          | .error first => .error (.part first)) ∧
    ∀ parts : List (String × Part), assemble e loops tempo parts
      = (parts.foldlM (Assembly.after e loops) ⟨⟨tempo, []⟩, 0⟩).map Assembly.score := by
  refine ⟨pairwise_name_of_list hlist, fun parts hparts => ?readable, ?unreadable,
    fun parts => ?fold⟩
  case readable =>
    rw [outcome_assembleDirectory hlist, outcome_compileParts hloops hparts, assemble]
    cases Assembly.addParts e loops (.start tempo) ((paths.map Path.name).zip parts) <;> rfl
  case unreadable =>
    rintro before path after parts fault rfl hbefore hpath
    rw [outcome_assembleDirectory hlist,
      outcome_compileParts_of_unreadable hloops hbefore hpath, assemble]
    cases Assembly.addParts e loops (.start tempo) ((before.map Path.name).zip parts) <;> rfl
  case fold =>
    have hstart : Assembly.start tempo = ⟨⟨tempo, []⟩, 0⟩ := rfl
    rw [assemble, ← hstart, ← Assembly.addParts_eq_foldlM]
    cases Assembly.addParts e loops (.start tempo) parts <;> rfl

/-- Two directories of two tracks each. -/
def twoDirectories (first second third fourth : List UInt8) : FileTree := ⟨[
  (⟨false, ["t"]⟩, .directory),
  (⟨false, ["t", "b.yml"]⟩, .file second),
  (⟨false, ["t", "a.yaml"]⟩, .file first),
  (⟨false, ["u"]⟩, .directory),
  (⟨false, ["u", "a.yaml"]⟩, .file third),
  (⟨false, ["u", "b.yaml"]⟩, .file fourth)]⟩

/-- What is listed of the two directories. -/
theorem list_twoDirectories (first second third fourth : List UInt8) :
    let t := twoDirectories first second third fourth
    Descriptor.list t ⟨.working, ["t"]⟩
        = .ok [⟨.working, ["t", "a.yaml"]⟩, ⟨.working, ["t", "b.yml"]⟩] ∧
      Descriptor.list t ⟨.working, ["u"]⟩
        = .ok [⟨.working, ["u", "a.yaml"]⟩, ⟨.working, ["u", "b.yaml"]⟩] := by
  intro t
  have hnames : (t.namesIn ⟨.working, ["t"]⟩).Perm ["a.yaml", "b.yml"] := by
    have horder : t.namesIn ⟨.working, ["t"]⟩ = ["b.yml", "a.yaml"] := by cbv
    rw [horder]
    exact List.Perm.swap _ _ _
  have hnames' : (t.namesIn ⟨.working, ["u"]⟩).Perm ["a.yaml", "b.yaml"] := by
    have horder : t.namesIn ⟨.working, ["u"]⟩ = ["a.yaml", "b.yaml"] := by cbv
    rw [horder]
  refine ⟨Descriptor.list_of_namesIn (by cbv) hnames (by decide) ?_,
    Descriptor.list_of_namesIn (by cbv) hnames' (by decide) ?_⟩
  · rw [List.forall_mem_cons, List.forall_mem_singleton]
    exact ⟨⟨by cbv, by cbv⟩, by cbv, by cbv⟩
  · rw [List.forall_mem_cons, List.forall_mem_singleton]
    exact ⟨⟨by cbv, by cbv⟩, by cbv, by cbv⟩

/-- What stands in the files of the two directories. -/
theorem read_twoDirectories (first second third fourth : List UInt8) :
    let t := twoDirectories first second third fourth
    t.read ⟨.working, ["t", "a.yaml"]⟩ = .ok first ∧
      t.read ⟨.working, ["t", "b.yml"]⟩ = .ok second ∧
      t.read ⟨.working, ["u", "a.yaml"]⟩ = .ok third ∧
      t.read ⟨.working, ["u", "b.yaml"]⟩ = .ok fourth := by
  intro t
  exact ⟨by cbv, by cbv, by cbv, by cbv⟩

/-- The two tracks of one directory become a score; in the other directory the second file is no
text, and its fault is found behind the first track. -/
theorem assembleDirectory_agrees_of_two :
    let piano : Instrument := ⟨"piano", ⟨"keys", some 1, none⟩⟩
    let e : Ensemble := ⟨[piano], [("keys", piano)]⟩
    let silent := "track: {instrument: keys}".toUTF8.toList
    let sounding := "track: {instrument: keys, notes: [{duration: 4, pitch: c4}]}".toUTF8.toList
    let t := twoDirectories sounding silent silent [0xff]
    (assembleDirectory t e 1 120 ⟨.working, ["t"]⟩).outcome
      = .ok (⟨120, [⟨"piano", 0, some 0, [⟨60, 0, 1⟩]⟩, ⟨"piano", 1, some 0, []⟩]⟩,
          ["a.yaml", "b.yml"]) ∧
    (assembleDirectory t e 1 120 ⟨.working, ["u"]⟩).outcome
      = .error (.descriptor (.malformed ⟨.working, ["u", "b.yaml"]⟩ .encoding)) := by
  intro piano e silent sounding t
  obtain ⟨hlist, hlist'⟩ := list_twoDirectories sounding silent silent [0xff]
  obtain ⟨hfirst, hsecond, hthird, hfourth⟩ := read_twoDirectories sounding silent silent [0xff]
  obtain ⟨-, hreadable, -⟩ := assembleDirectory_agrees e le_rfl 120 hlist
  obtain ⟨-, -, hunreadable, -⟩ := assembleDirectory_agrees e le_rfl 120 hlist'
  have hbytes : Yaml.Document.ofBytes [0xff] = .error .encoding := by cbv
  have hpart : readPart t ⟨.working, ["t", "a.yaml"]⟩ = .ok ⟨"keys", [⟨"4", .single "c4"⟩]⟩ :=
    Descriptor.read_eq_ok hfirst (by decide +kernel)
  have hpart' : readPart t ⟨.working, ["t", "b.yml"]⟩ = .ok ⟨"keys", []⟩ :=
    Descriptor.read_eq_ok hsecond (by decide +kernel)
  have hearlier : readPart t ⟨.working, ["u", "a.yaml"]⟩ = .ok ⟨"keys", []⟩ :=
    Descriptor.read_eq_ok hthird (by decide +kernel)
  have hfault : readPart t ⟨.working, ["u", "b.yaml"]⟩
      = .error (.malformed ⟨.working, ["u", "b.yaml"]⟩ .encoding) :=
    Descriptor.read_eq_error hfourth hbytes
  have hparts : ([⟨.working, ["t", "a.yaml"]⟩, ⟨.working, ["t", "b.yml"]⟩] : List Path).mapM
      (readPart t) = .ok [⟨"keys", [⟨"4", .single "c4"⟩]⟩, ⟨"keys", []⟩] := by
    rw [mapM_cons_ok _ hpart, mapM_cons_ok _ hpart']
    rfl
  have hbefore : ([⟨.working, ["u", "a.yaml"]⟩] : List Path).mapM (readPart t)
      = .ok [⟨"keys", []⟩] := by
    rw [mapM_cons_ok _ hearlier]
    rfl
  have hscore : assemble e 1 120
      ((([⟨.working, ["t", "a.yaml"]⟩, ⟨.working, ["t", "b.yml"]⟩] : List Path).map Path.name).zip
        [⟨"keys", [⟨"4", .single "c4"⟩]⟩, ⟨"keys", []⟩])
        = .ok ⟨120, [⟨"piano", 0, some 0, [⟨60, 0, 1⟩]⟩, ⟨"piano", 1, some 0, []⟩]⟩ := by cbv
  have hscore' : assemble e 1 120
      ((([⟨.working, ["u", "a.yaml"]⟩] : List Path).map Path.name).zip [⟨"keys", []⟩])
        = .ok ⟨120, [⟨"piano", 0, some 0, []⟩]⟩ := by cbv
  constructor
  · rw [hreadable _ hparts, hscore]
    rfl
  · rw [hunreadable _ _ [] _ _ rfl hbefore hfault, hscore']

end Build

end Ostinato

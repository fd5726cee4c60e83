import Mathlib
import Ostinato.Disk.Descriptor
import Ostinato.Proofs.Disk.WellFormed
import Ostinato.Proofs.Outcome

/-!
# Trees that agree but for some files

Two trees agree except in some files if they have the same directories and the same files, and all
other files have the same content. Ways and listings do not notice the content of a file, so the
same paths lead to the same places in both (`AgreesExcept.find_eq`) and their directories have the
same files (`AgreesExcept.filesIn_perm`), whose order is then that of their names
(`Descriptor.sorted_eq_of_perm`). A file that is none of the changed ones reads the same
(`AgreesExcept.read_eq`). A directory is listed if all in it can be looked up
(`Descriptor.list_eq_ok_iff`), and otherwise the first entry that cannot be is the fault
(`Descriptor.list_of_firstTooLong`).
-/

namespace Ostinato

namespace FileTree

variable {t t' : FileTree} {changed : Path → Prop}

/-- Two trees with the same directories and the same files, whose contents are the same except for
those to which some paths lead. -/
def AgreesExcept (t t' : FileTree) (changed : Path → Prop) : Prop :=
  ∀ place, t'.get? place = t.get? place ∨
    (∃ p, changed p ∧ t.find p = .ok place) ∧
      ∃ data data', t.get? place = some (.file data) ∧ t'.get? place = some (.file data')

/-- There is something in a place of one tree if there is in that of the other. -/
theorem AgreesExcept.get?_ne_none_iff (h : t.AgreesExcept t' changed) (place : Place) :
    t'.get? place ≠ none ↔ t.get? place ≠ none := by
  obtain hsame | ⟨-, data, data', hdata, hdata'⟩ := h place
  · rw [hsame]
  · simp [hdata, hdata']

/-- A way past a file fails whatever the file holds. -/
theorem AgreesExcept.follow_eq (h : t.AgreesExcept t' changed) (here : Place)
    (names : List String) : t'.follow here names = t.follow here names := by
  induction names generalizing here with
  | nil => rfl
  | cons name names ih =>
    rw [follow, follow]
    obtain hsame | ⟨-, data, data', hdata, hdata'⟩ := h here
    · rw [hsame, ih, ih]
    · rw [hdata, hdata']

/-- Every way leads to the same place. -/
theorem AgreesExcept.find_eq (h : t.AgreesExcept t' changed) (p : Path) :
    t'.find p = t.find p := by
  unfold find
  rw [h.follow_eq]

/-- The same paths are directories. -/
theorem AgreesExcept.isDirectory_eq (h : t.AgreesExcept t' changed) (p : Path) :
    t'.isDirectory p = t.isDirectory p := by
  unfold isDirectory look
  rw [h.find_eq]
  cases t.find p with
  | error fault => rfl
  | ok place =>
    dsimp only
    obtain hsame | ⟨-, data, data', hdata, hdata'⟩ := h place
    · rw [hsame]
    · rw [hdata, hdata']
      rfl

/-- A file that none of the changed ones is reads the same. -/
theorem AgreesExcept.read_eq (h : t.AgreesExcept t' changed) {p : Path}
    (hp : ∀ place, t.find p = .ok place → ∀ q, changed q → t.find q ≠ .ok place) :
    t'.read p = t.read p := by
  unfold read look
  rw [h.find_eq]
  cases hfind : t.find p with
  | error fault => rfl
  | ok place =>
    obtain hsame | ⟨⟨q, hq, hplace⟩, -⟩ := h place
    · dsimp only
      rw [hsame]
    · exact absurd hplace (hp place hfind q hq)

/-- The same paths are files. -/
theorem AgreesExcept.isFile_eq (h : t.AgreesExcept t' changed) (p : Path) :
    t'.isFile p = t.isFile p := by
  unfold isFile look
  rw [h.find_eq]
  cases t.find p with
  | error fault => rfl
  | ok place =>
    dsimp only
    obtain hsame | ⟨-, data, data', hdata, hdata'⟩ := h place
    · rw [hsame]
    · rw [hdata, hdata']
      rfl

/-- Directories have the same names in them, though perhaps in another order. -/
theorem AgreesExcept.namesIn_perm (h : t.AgreesExcept t' changed) (ht : t.WellFormed)
    (ht' : t'.WellFormed) (p : Path) : (t'.namesIn p).Perm (t.namesIn p) := by
  rw [List.perm_ext_iff_of_nodup (ht'.nodup_namesIn p) (ht.nodup_namesIn p)]
  intro name
  simp only [mem_namesIn_iff, ht'.mem_places_iff, ht.mem_places_iff, h.find_eq, h.get?_ne_none_iff]

/-- Directories list the same files, though perhaps in another order. -/
theorem AgreesExcept.filesIn_perm (h : t.AgreesExcept t' changed) (ht : t.WellFormed)
    (ht' : t'.WellFormed) (p : Path) : (t'.filesIn p).Perm (t.filesIn p) := by
  unfold filesIn
  simp only [h.isFile_eq]
  exact (h.namesIn_perm ht ht' p).filter _

/-- The entries of a directory can all be looked up in one tree if they can in the other. -/
theorem AgreesExcept.listable_iff (h : t.AgreesExcept t' changed) (ht : t.WellFormed)
    (ht' : t'.WellFormed) (p : Path) : t'.Listable p ↔ t.Listable p := by
  unfold Listable
  simp only [(h.namesIn_perm ht ht' p).mem_iff, h.find_eq]

end FileTree

/-! ## Descriptors in order -/

namespace Descriptor

/-- The descriptors of a directory do not depend on the order in which it lists its files. -/
theorem sorted_eq_of_perm {names names' : List String} (h : names.Perm names')
    (directory : Path) : sorted directory names = sorted directory names' := by
  have hsorted : names.mergeSort (fun a b => decide (a ≤ b))
      = names'.mergeSort (fun a b => decide (a ≤ b)) := by
    refine List.Perm.eq_of_sortedLE List.sortedLE_mergeSort List.sortedLE_mergeSort ?_
    exact ((List.mergeSort_perm _ _).trans h).trans (List.mergeSort_perm _ _).symm
  rw [sorted, hsorted, sorted]

/-- Descriptors whose names are in order are listed in this order. -/
theorem sorted_of_pairwise {directory : Path} {names : List String} (h : names.Pairwise (· ≤ ·))
    (hdescriptors : (names.map directory.child).all isDescriptor = true) :
    sorted directory names = names.map directory.child := by
  have hsorted : names.mergeSort (fun a b => decide (a ≤ b)) = names :=
    List.mergeSort_of_pairwise (h.imp fun hle => decide_eq_true hle)
  rw [sorted, hsorted, List.filter_eq_self]
  exact List.all_eq_true.mp hdescriptors

/-- The sorted descriptors of some names are the children of these names that are descriptors. -/
theorem mem_sorted_iff {directory path : Path} {names : List String} :
    path ∈ sorted directory names ↔
      (∃ name ∈ names, directory.child name = path) ∧ isDescriptor path = true := by
  rw [sorted, List.mem_filter, List.mem_map]
  simp only [List.mem_mergeSort]

/-- A child has the name it was given. -/
theorem name_child (directory : Path) (name : String) : (directory.child name).name = name := by
  simp [Path.child, Path.name]

/-- Children of one directory differ by their names. -/
theorem child_injective (directory : Path) : Function.Injective directory.child := by
  intro name name' h
  rw [← name_child directory name, h, name_child]

/-- Descriptors come in the order of their names. -/
theorem pairwise_sorted (directory : Path) (names : List String) :
    (sorted directory names).Pairwise fun p q => p.name ≤ q.name := by
  refine List.Pairwise.filter _ (List.pairwise_map.mpr ?_)
  simp only [name_child]
  exact List.sortedLE_mergeSort.pairwise

/-- Different names are sorted to different paths. -/
theorem nodup_sorted {names : List String} (h : names.Nodup) (directory : Path) :
    (sorted directory names).Nodup := by
  have hnodup := (List.mergeSort_perm names fun a b => decide (a ≤ b)).nodup_iff.mpr h
  exact (hnodup.map (child_injective directory)).filter _

/-- One descriptor more takes its place among the others, behind all whose names are smaller. -/
theorem exists_sorted_cons {directory : Path} {name : String} (names : List String)
    (h : isDescriptor (directory.child name) = true) :
    ∃ before after, sorted directory names = before ++ after ∧
      sorted directory (name :: names) = before ++ directory.child name :: after ∧
      ∀ p ∈ sorted directory names, p.name < name → p ∈ before := by
  have htrans : ∀ a b c : String, decide (a ≤ b) = true → decide (b ≤ c) = true →
      decide (a ≤ c) = true := by
    simpa using fun a b c => le_trans
  have htotal : ∀ a b : String, (decide (a ≤ b) || decide (b ≤ a)) = true := by
    simpa using le_total
  obtain ⟨smaller, larger, hcons, hnames, -⟩ := List.mergeSort_cons htrans htotal name names
  have hsorted : sorted directory (name :: names)
      = (smaller.map directory.child).filter isDescriptor ++
          directory.child name :: (larger.map directory.child).filter isDescriptor := by
    rw [sorted, hcons, List.map_append, List.filter_append, List.map_cons,
      List.filter_cons_of_pos h]
  refine ⟨_, _, ?_, hsorted, fun p hp hname => ?_⟩
  · rw [sorted, hnames, List.map_append, List.filter_append]
  · rw [sorted, hnames, List.map_append, List.filter_append] at hp
    refine (List.mem_append.mp hp).resolve_right fun hlarger => ?_
    have horder := pairwise_sorted directory (name :: names)
    rw [hsorted, List.pairwise_append] at horder
    have hle := List.rel_of_pairwise_cons horder.2.1 hlarger
    rw [name_child] at hle
    exact absurd hname (not_lt.mpr hle)

/-- No descriptor is called as the way up is. -/
theorem ne_up_of_isDescriptor {directory : Path} {name : String}
    (h : isDescriptor (directory.child name) = true) : name ≠ ".." := by
  rintro rfl
  have hsuffix : (directory.child "..").suffix = "" := by
    rw [Path.suffix, name_child]
    rfl
  have hnone : suffixes.contains "".toLower = false := by cbv
  rw [isDescriptor, hsuffix, hnone] at h
  cases h

/-! ## Listing a directory -/

section Listing

variable {t t' : FileTree} {directory : Path}

/-- The look-up of an entry fails just if its path is too long, for that reason. -/
theorem fileName_eq_error_iff {name : String} {fault : ListFault} :
    fileName t directory name = .error fault ↔
      t.find (directory.child name) = .error .tooLong ∧
        fault = .disk (directory.child name) .tooLong := by
  unfold fileName
  cases hfile : t.isFile (directory.child name) with
  | error cause =>
    obtain ⟨hfind, rfl⟩ := FileTree.isFile_eq_error_iff.mp hfile
    simp [hfind, eq_comm]
  | ok found =>
    have hfind : t.find (directory.child name) ≠ .error .tooLong := fun h => by
      rw [FileTree.isFile_eq_error_iff.mpr ⟨h, rfl⟩] at hfile
      cases hfile
    cases found <;> simp [hfind]

/-- The look-up of an entry finds its name if it is a file, and else nothing. -/
theorem fileName_eq_ok {name : String} {found : Option String}
    (h : fileName t directory name = .ok found) :
    (if t.isFile (directory.child name) = .ok true then some name else none) = found := by
  unfold fileName at h
  split at h
  next hfile =>
    cases h
    rw [if_pos hfile]
  next hfile =>
    cases h
    rw [hfile, if_neg (by simp)]
  next => cases h

/-- A directory in which all can be looked up is listed. -/
theorem list_of_listable (hdirectory : t.isDirectory directory = .ok true)
    (h : t.Listable directory) :
    list t directory = .ok (sorted directory (t.filesIn directory)) := by
  have hall : ∀ name ∈ t.namesIn directory, ∃ found, fileName t directory name = .ok found := by
    intro name hname
    cases hfound : fileName t directory name with
    | ok found => exact ⟨found, rfl⟩
    | error fault => exact absurd (fileName_eq_error_iff.mp hfound).1 (h name hname)
  obtain ⟨found, hfound⟩ := exists_mapM_iff.mpr hall
  -- what is found of the names are those of files
  have hfiles : found.filterMap id = t.filesIn directory := by
    rw [eq_map_of_mapM (fun _ _ => fileName_eq_ok) hfound, List.filterMap_map, FileTree.filesIn,
      ← List.filterMap_eq_filter]
    simp [Option.guard]
  rw [list, hdirectory]
  dsimp only
  rw [hfound, ← hfiles]
  rfl

/-- A directory with something in it that cannot be looked up is not listed: the first such name is
the fault. -/
theorem list_of_firstTooLong (hdirectory : t.isDirectory directory = .ok true) {name : String}
    (h : t.FirstTooLong directory name) :
    list t directory = .error (.disk (directory.child name) .tooLong) := by
  obtain ⟨before, after, hnames, hbefore, hname⟩ := h
  have hfound : (t.namesIn directory).mapM (fileName t directory)
      = .error (.disk (directory.child name) .tooLong) := by
    refine mapM_eq_error_iff.mpr ⟨before, name, after, hnames, fun other hother => ?_,
      fileName_eq_error_iff.mpr ⟨hname, rfl⟩⟩
    cases hother' : fileName t directory other with
    | ok found => exact ⟨found, rfl⟩
    | error fault => exact absurd (fileName_eq_error_iff.mp hother').1 (hbefore other hother)
  rw [list, hdirectory]
  dsimp only
  rw [hfound]
  rfl

/-- A directory of files that are all descriptors lists them in the order of their names. -/
theorem list_of_namesIn {names : List String} (hdirectory : t.isDirectory directory = .ok true)
    (hperm : (t.namesIn directory).Perm names) (hnames : names.Pairwise (· ≤ ·))
    (hfiles : ∀ name ∈ names, t.isFile (directory.child name) = .ok true ∧
      isDescriptor (directory.child name) = true) :
    list t directory = .ok (names.map directory.child) := by
  have hlistable : t.Listable directory := by
    intro name hname htooLong
    have hfile := (hfiles name (hperm.mem_iff.mp hname)).1
    rw [FileTree.isFile_eq_error_iff.mpr ⟨htooLong, rfl⟩] at hfile
    cases hfile
  have hall : names.filter (fun name => t.isFile (directory.child name) = .ok true) = names :=
    List.filter_eq_self.mpr fun name hname => decide_eq_true (hfiles name hname).1
  have hfilesIn : (t.filesIn directory).Perm names := by
    rw [← hall]
    exact hperm.filter _
  have hdescriptors : (names.map directory.child).all isDescriptor = true := by
    rw [List.all_eq_true, List.forall_mem_map]
    exact fun name hname => (hfiles name hname).2
  rw [list_of_listable hdirectory hlistable, sorted_eq_of_perm hfilesIn,
    sorted_of_pairwise hnames hdescriptors]

/-- A directory is listed exactly if it is there and all in it can be looked up. -/
theorem list_eq_ok_iff {paths : List Path} :
    list t directory = .ok paths ↔ t.isDirectory directory = .ok true ∧ t.Listable directory ∧
      paths = sorted directory (t.filesIn directory) := by
  constructor
  · intro h
    have hdirectory : t.isDirectory directory = .ok true := by
      unfold list at h
      split at h
      · assumption
      · cases h
      · cases h
    by_cases hlistable : t.Listable directory
    · rw [list_of_listable hdirectory hlistable] at h
      exact ⟨hdirectory, hlistable, (Except.ok.inj h).symm⟩
    · obtain ⟨name, hname⟩ := FileTree.exists_firstTooLong hlistable
      rw [list_of_firstTooLong hdirectory hname] at h
      cases h
  · rintro ⟨hdirectory, hlistable, rfl⟩
    exact list_of_listable hdirectory hlistable

/-- What a directory lists is known from the files that it has, in whatever order it has them. -/
theorem list_eq_of_perm (hdirectory : t'.isDirectory directory = t.isDirectory directory)
    (hlistable : t.Listable directory) (hlistable' : t'.Listable directory)
    (hfiles : (t'.filesIn directory).Perm (t.filesIn directory)) :
    list t' directory = list t directory := by
  cases hthere : t.isDirectory directory with
  | error fault => rw [list, list, hdirectory, hthere]
  | ok found =>
    cases found with
    | false => rw [list, list, hdirectory, hthere]
    | true =>
      rw [list_of_listable (hdirectory.trans hthere) hlistable', list_of_listable hthere hlistable,
        sorted_eq_of_perm hfiles]

/-- Trees that agree but for some files list a directory alike: the same, or each fails at the name
that comes first in it of those that cannot be looked up. -/
theorem list_eq_or_of_agreesExcept {changed : Path → Prop} (h : t.AgreesExcept t' changed)
    (ht : t.WellFormed) (ht' : t'.WellFormed) (directory : Path) :
    list t' directory = list t directory ∨
      ∃ name name', t.FirstTooLong directory name ∧ t'.FirstTooLong directory name' ∧
        list t directory = .error (.disk (directory.child name) .tooLong) ∧
        list t' directory = .error (.disk (directory.child name') .tooLong) := by
  have hsame := h.isDirectory_eq directory
  by_cases hthere : t.isDirectory directory = .ok true
  · have hlistable_iff := h.listable_iff ht ht' directory
    by_cases hlistable : t.Listable directory
    · left
      exact list_eq_of_perm hsame hlistable (hlistable_iff.mpr hlistable)
        (h.filesIn_perm ht ht' directory)
    · right
      obtain ⟨name, hname⟩ := FileTree.exists_firstTooLong hlistable
      obtain ⟨name', hname'⟩ := FileTree.exists_firstTooLong (mt hlistable_iff.mp hlistable)
      exact ⟨name, name', hname, hname', list_of_firstTooLong hthere hname,
        list_of_firstTooLong (hsame.trans hthere) hname'⟩
  · left
    rw [list, list, hsame]
    split
    next hdirectory => exact absurd hdirectory hthere
    next => rfl
    next => rfl

/-- Trees that agree but for some files, and have their entries in the same order, list a directory
the same. -/
theorem list_eq_of_namesIn_eq {changed : Path → Prop} (h : t.AgreesExcept t' changed)
    (hnames : t'.namesIn directory = t.namesIn directory) :
    list t' directory = list t directory := by
  have hname : fileName t' directory = fileName t directory := by
    funext name
    rw [fileName, fileName, h.isFile_eq]
  rw [list, list, h.isDirectory_eq, hnames, hname]

end Listing

/-! ## Descriptors by their content -/

variable {t : FileTree} {α : Type} {path : Path} {key : String} {check : Pool → Value → Checked α}
  {data : List UInt8}

/-- A descriptor that is no document is the fault of reading it. -/
theorem read_eq_error {fault : Yaml.Fault} (hread : t.read path = .ok data)
    (hdata : Yaml.Document.ofBytes data = .error fault) :
    read t path key check = .error (ofFault path fault) := by
  unfold read
  rw [hread]
  dsimp only
  unfold parse
  rw [hdata]

/-- What a file holds is what is read. -/
theorem read_eq_ok {a : α} (hread : t.read path = .ok data)
    (hparse : (parse path key check data).toOption = some a) : read t path key check = .ok a := by
  rw [read, hread]
  exact eq_ok_of_toOption hparse

/-- The path of a file counts only where the file is refused. -/
theorem toOption_parse_eq (path path' : Path) (key : String) (check : Pool → Value → Checked α)
    (data : List UInt8) :
    (parse path key check data).toOption = (parse path' key check data).toOption := by
  unfold parse
  cases Yaml.Document.ofBytes data with
  | error fault => rfl
  | ok document =>
    dsimp only
    cases entry key check document with
    | ok a => rfl
    | error reason => cases reason <;> rfl

end Descriptor

end Ostinato

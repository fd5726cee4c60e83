import Ostinato.Proofs.Disk.Agreement

/-!
# What a directory lists

A name is cut at its last point, if there is something in front of it and something behind it
(`Path.cutSuffix_append`). So the names of descriptors are those with something in front of `.yaml`
or `.yml`, in whatever case (`Descriptor.isDescriptor_child_iff`). A directory lists its files of
such names, each once, sorted by the numbers of their characters (`Descriptor.lists_sorted`), if all
in it can be looked up. A path to a directory can be so long that this cannot be done
(`list_farTree`).
-/

namespace Ostinato

/-! ## Suffixes -/

/-- Only a point has a point as its lower case. -/
theorem toLower_eq_point_iff {c : Char} : c.toLower = '.' ↔ c = '.' := by
  refine ⟨fun h => ?_, fun h => by rw [h]; rfl⟩
  unfold Char.toLower at h
  split at h
  next hupper =>
    -- an upper case letter becomes a letter
    have hge : 65 ≤ c.val.toNat := UInt32.le_iff_toNat_le.mp hupper.1
    have hle : c.val.toNat ≤ 90 := UInt32.le_iff_toNat_le.mp hupper.2
    have hval : (c.val.toNat + 32) % 2 ^ 32 = 46 := congrArg Char.toNat h
    omega
  next => exact h

namespace Path

variable {name stem ext lower : List Char}

/-- A name with something in front of its last point, and something behind it, is cut there. -/
theorem cutSuffix_append (hstem : stem ≠ []) (hext : ext ≠ []) (hpoint : '.' ∉ ext) :
    cutSuffix (stem ++ '.' :: ext) = (stem, '.' :: ext) := by
  have hafter : ((stem ++ '.' :: ext).reverse.takeWhile (· ≠ '.')).length = ext.length := by
    have hreverse : (stem ++ '.' :: ext).reverse = ext.reverse ++ '.' :: stem.reverse := by simp
    have hbehind : ∀ c ∈ ext.reverse, decide (c ≠ '.') = true := fun c hc =>
      decide_eq_true fun h => hpoint (h ▸ List.mem_reverse.mp hc)
    rw [hreverse, List.takeWhile_append_of_pos hbehind, List.takeWhile_cons_of_neg (by simp),
      List.append_nil, List.length_reverse]
  have hstem' := List.length_pos_iff.mpr hstem
  have hext' := List.length_pos_iff.mpr hext
  have hlength : (stem ++ '.' :: ext).length = stem.length + (ext.length + 1) := by simp
  have hproper : ¬ (ext.length = 0 ∨ stem.length + (ext.length + 1) ≤ ext.length + 1) := by omega
  unfold cutSuffix
  dsimp only
  rw [hafter, hlength, if_neg hproper, Nat.add_sub_cancel, List.take_left, List.drop_left]

/-- What is cut off leaves something. -/
theorem exists_of_cutSuffix (h : (cutSuffix name).2 = ext) (hext : ext ≠ []) :
    ∃ stem, stem ≠ [] ∧ name = stem ++ ext := by
  unfold cutSuffix at h
  dsimp only at h
  split at h
  next => exact absurd h.symm hext
  next hproper =>
    rw [not_or, not_le] at hproper
    subst h
    refine ⟨_, List.length_pos_iff.mp ?_, (List.take_append_drop _ name).symm⟩
    rw [List.length_take]
    omega

/-- A suffix in lower case, in terms of the name. -/
theorem lower_cutSuffix_eq_iff (hlower : lower ≠ []) (hpoint : '.' ∉ lower) :
    (cutSuffix name).2.map Char.toLower = '.' :: lower ↔
      ∃ stem ext, stem ≠ [] ∧ name = stem ++ '.' :: ext ∧ ext.map Char.toLower = lower := by
  constructor
  · intro h
    obtain ⟨c, ext, hsuffix, hc, hext⟩ := List.map_eq_cons_iff.mp h
    obtain rfl := toLower_eq_point_iff.mp hc
    obtain ⟨stem, hstem, hname⟩ := exists_of_cutSuffix hsuffix (List.cons_ne_nil _ _)
    exact ⟨stem, ext, hstem, hname, hext⟩
  · rintro ⟨stem, ext, hstem, rfl, rfl⟩
    have hext : ext ≠ [] := fun h => hlower (List.map_eq_nil_iff.mpr h)
    have hnone : '.' ∉ ext := fun h =>
      hpoint (List.mem_map.mpr ⟨'.', h, toLower_eq_point_iff.mpr rfl⟩)
    rw [cutSuffix_append hstem hext hnone, List.map_cons, toLower_eq_point_iff.mpr rfl]

end Path

/-! ## Names of descriptors -/

namespace Descriptor

variable {t : FileTree} {directory : Path} {name : String} {paths : List Path}

/-- A name with something in front of a suffix of descriptors. -/
inductive IsDescriptorName : String → Prop
  | intro {stem ext : String} (hstem : stem ≠ "")
      (hext : ext.toLower = "yaml" ∨ ext.toLower = "yml") : IsDescriptorName (stem ++ "." ++ ext)

/-- A child has a suffix, apart from case, if its name is a stem, a point and the suffix. -/
theorem lower_suffix_child_iff {lower : String} (hlower : lower ≠ "")
    (hpoint : '.' ∉ lower.toList) :
    (directory.child name).suffix.toLower = "." ++ lower ↔
      ∃ stem ext : String, stem ≠ "" ∧ name = stem ++ "." ++ ext ∧ ext.toLower = lower := by
  have hlower' : lower.toList ≠ [] := by rwa [Ne, String.toList_eq_nil_iff]
  rw [← String.toList_inj, String.toLower, String.toList_map, Path.suffix, name_child,
    String.toList_ofList, String.toList_append]
  refine (Path.lower_cutSuffix_eq_iff hlower' hpoint).trans ⟨?_, ?_⟩
  · rintro ⟨stem, ext, hstem, hname, hext⟩
    refine ⟨.ofList stem, .ofList ext, ?_, ?_, ?_⟩
    · simpa using hstem
    · rw [← String.toList_inj]
      simpa using hname
    · rw [← String.toList_inj, String.toLower, String.toList_map, String.toList_ofList, hext]
  · rintro ⟨stem, ext, hstem, rfl, rfl⟩
    refine ⟨stem.toList, ext.toList, ?_, by simp, ?_⟩
    · rwa [Ne, String.toList_eq_nil_iff]
    · rw [String.toLower, String.toList_map]

/-- A child is a descriptor if its name is that of one. -/
theorem isDescriptor_child_iff :
    isDescriptor (directory.child name) = true ↔ IsDescriptorName name := by
  have hsuffixes : isDescriptor (directory.child name) = true ↔
      (directory.child name).suffix.toLower = "." ++ "yaml" ∨
        (directory.child name).suffix.toLower = "." ++ "yml" := by
    simp [isDescriptor, suffixes]
  rw [hsuffixes, lower_suffix_child_iff (by decide) (by decide),
    lower_suffix_child_iff (by decide) (by decide)]
  constructor
  · rintro (⟨stem, ext, hstem, rfl, hext⟩ | ⟨stem, ext, hstem, rfl, hext⟩)
    exacts [.intro hstem (.inl hext), .intro hstem (.inr hext)]
  · rintro ⟨hstem, hext | hext⟩
    exacts [.inl ⟨_, _, hstem, rfl, hext⟩, .inr ⟨_, _, hstem, rfl, hext⟩]

/-! ## Order -/

/-- The numbers of the characters of a text. -/
def codePoints (s : String) : List Nat := s.toList.map Char.toNat

/-- Texts are ordered by the numbers of their characters. -/
theorem codePoints_lt {s s' : String} (h : s < s') : codePoints s < codePoints s' :=
  List.map_lt (fun _ _ hlt => hlt) (String.lt_iff.mp h)

/-- No two descriptors have one name, so their order is strict. -/
theorem pairwise_lt_sorted {names : List String} (h : names.Nodup) (directory : Path) :
    (sorted directory names).Pairwise fun p q => p.name < q.name := by
  refine List.Pairwise.filter _ (List.pairwise_map.mpr ?_)
  simp only [name_child]
  have hle := (List.sortedLE_mergeSort (l := names)).pairwise
  have hne := (List.mergeSort_perm names fun a b => decide (a ≤ b)).nodup_iff.mpr h
  exact (hle.and hne).imp fun hlt => lt_of_le_of_ne hlt.1 hlt.2

/-- The paths that a directory at a place lists: of its entries those that are files with the name
of a descriptor, each once, ordered by the numbers of the characters of their names. The name of a
file has no null character in it. -/
structure Lists (t : FileTree) (directory : Path) (here : Place) (paths : List Path) : Prop where
  increasing : paths.Pairwise fun p q => codePoints p.name < codePoints q.name
  nodup : paths.Nodup
  mem_iff : ∀ path, path ∈ paths ↔ ∃ name data, path = directory.child name ∧
    t.get? (here.child name) = some (.file data) ∧ name.contains '\x00' = false ∧
    IsDescriptorName name

variable {here : Place}

/-- Where all can be looked up, a name of a descriptor is found unless no file can have it. -/
theorem find_child_of_listable (ht : t.WellFormed) (hfind : t.find directory = .ok here)
    (hdirectory : t.get? here = some .directory) (hlistable : t.Listable directory)
    (hdescriptor : IsDescriptorName name) {e : Entry} (hget : t.get? (here.child name) = some e) :
    t.find (directory.child name) = .ok (here.child name) ↔ name.contains '\x00' = false := by
  have hup := ne_up_of_isDescriptor (@isDescriptor_child_iff directory name |>.mpr hdescriptor)
  have hbase : FileTree.isBase (here.child name) = false := by
    simp [FileTree.isBase, Place.child, hup]
  have hlooked := hlistable name
    (FileTree.mem_namesIn_iff.mpr ⟨here, hfind, ht.mem_places_iff.mpr ⟨hbase, by simp [hget]⟩⟩)
  rw [FileTree.find_child hfind] at hlooked ⊢
  split_ifs at hlooked ⊢ with hnull hlong
  · simp [hnull]
  · simp at hlooked
  · rw [FileTree.follow, hdirectory] at hlooked ⊢
    dsimp only at hlooked ⊢
    rw [if_neg hup] at hlooked ⊢
    split_ifs at hlooked ⊢
    · simp at hlooked
    · simpa [FileTree.follow, Place.child] using hnull

/-- In whatever order the files of a directory come, what is listed is the same. -/
theorem lists_sorted (ht : t.WellFormed) (hfind : t.find directory = .ok here)
    (hdirectory : t.get? here = some .directory) (hlistable : t.Listable directory)
    {names : List String} (hnames : names.Perm (t.filesIn directory)) :
    Lists t directory here (sorted directory names) := by
  have hnodup : names.Nodup := hnames.nodup_iff.mpr (ht.nodup_filesIn directory)
  have hfile : ∀ name, IsDescriptorName name → (name ∈ names ↔
      ∃ data, t.get? (here.child name) = some (.file data) ∧ name.contains '\x00' = false) := by
    intro name hdescriptor
    rw [hnames.mem_iff, ht.mem_filesIn_iff]
    simp only [hfind, Except.ok.injEq, exists_and_left, exists_eq_left']
    constructor
    · rintro ⟨hfound, data, hdata⟩
      exact ⟨data, hdata,
        (find_child_of_listable ht hfind hdirectory hlistable hdescriptor hdata).mp hfound⟩
    · rintro ⟨data, hdata, hnull⟩
      exact ⟨(find_child_of_listable ht hfind hdirectory hlistable hdescriptor hdata).mpr hnull,
        data, hdata⟩
  refine ⟨(pairwise_lt_sorted hnodup directory).imp codePoints_lt, nodup_sorted hnodup directory,
    fun path => ?_⟩
  rw [mem_sorted_iff]
  constructor
  · rintro ⟨⟨name, hname, rfl⟩, hdescriptor⟩
    rw [isDescriptor_child_iff] at hdescriptor
    obtain ⟨data, hdata, hnull⟩ := (hfile name hdescriptor).mp hname
    exact ⟨name, data, rfl, hdata, hnull, hdescriptor⟩
  · rintro ⟨name, data, rfl, hdata, hnull, hdescriptor⟩
    exact ⟨⟨name, (hfile name hdescriptor).mpr ⟨data, hdata, hnull⟩, rfl⟩,
      isDescriptor_child_iff.mpr hdescriptor⟩

/-- A child is listed if it is a file, its name holds no null character and is that of a
descriptor. -/
theorem Lists.child_mem_iff (h : Lists t directory here paths) :
    directory.child name ∈ paths ↔
      (∃ data, t.get? (here.child name) = some (.file data)) ∧ name.contains '\x00' = false ∧
        IsDescriptorName name := by
  rw [h.mem_iff]
  constructor
  · rintro ⟨name', data, hpath, hdata, hnull, hdescriptor⟩
    obtain rfl := child_injective directory hpath
    exact ⟨⟨data, hdata⟩, hnull, hdescriptor⟩
  · rintro ⟨⟨data, hdata⟩, hnull, hdescriptor⟩
    exact ⟨name, data, rfl, hdata, hnull, hdescriptor⟩

/-- A directory is not listed, whatever its name. -/
theorem Lists.not_mem_of_directory (h : Lists t directory here paths)
    (hname : t.get? (here.child name) = some .directory) : directory.child name ∉ paths := by
  rw [h.child_mem_iff, hname]
  rintro ⟨⟨data, hdata⟩, -⟩
  cases hdata

/-- A file that is named by a suffix alone is not listed: nothing stands in front of it. -/
theorem Lists.not_mem_of_suffix (h : Lists t directory here paths) {suffix : String}
    (hsuffix : suffix ∈ suffixes) : directory.child suffix ∉ paths := by
  have hnone : isDescriptor (directory.child suffix) = false := by
    rw [isDescriptor, Path.suffix, name_child]
    rw [suffixes, List.mem_pair] at hsuffix
    rcases hsuffix with rfl | rfl <;> cbv
  rw [h.child_mem_iff, ← @isDescriptor_child_iff directory, hnone]
  exact fun hlisted => Bool.false_ne_true hlisted.2.2

end Descriptor

/-! ## A directory far away -/

/-- A way to the directory `i` that goes into it and out of it again a number of times. -/
def detour : Nat → List String
  | 0 => ["i"]
  | n + 1 => "i" :: ".." :: detour n

/-- The path of such a way. -/
def detourPath (n : Nat) : Path := ⟨.working, detour n⟩

/-- Each round of a detour adds five bytes to the text of a way. -/
theorem size_detour (n : Nat) (names : List String) :
    (String.intercalate "/" (detour n ++ names)).utf8ByteSize
      = 5 * n + (String.intercalate "/" ("i" :: names)).utf8ByteSize := by
  induction n with
  | zero => simp [detour]
  | succ n ih =>
    have hrest : detour n ++ names ≠ [] := by cases n <;> simp [detour]
    have hsizes : "i".utf8ByteSize = 1 ∧ "/".utf8ByteSize = 1 ∧ "..".utf8ByteSize = 2 := by decide
    rw [detour, List.cons_append, List.cons_append,
      String.intercalate_cons_of_ne_nil (List.cons_ne_nil _ _),
      String.intercalate_cons_of_ne_nil hrest]
    simp only [String.utf8ByteSize_append, ih, hsizes]
    omega

/-- Each round of a detour adds five bytes to the text of the path. -/
theorem size_text_detourPath (n : Nat) (names : List String) :
    (⟨.working, detour n ++ names⟩ : Path).text.utf8ByteSize
      = 5 * n + (String.intercalate "/" ("i" :: names)).utf8ByteSize := by
  have hnames : detour n ++ names ≠ [] := by cases n <;> simp [detour]
  have hroot : Path.rootText .working = "" := rfl
  rw [Path.text, if_neg (by simp [hnames]), hroot, String.empty_append, size_detour]

/-- A detour holds no null character but those of the names behind it. -/
theorem any_null_detour (n : Nat) (names : List String) :
    ((detour n ++ names).any fun name => name.contains '\x00')
      = names.any fun name => name.contains '\x00' := by
  have hi : "i".contains '\x00' = false := by cbv
  have hup : "..".contains '\x00' = false := by cbv
  induction n with
  | zero => simp [detour]
  | succ n ih => simpa [detour, hi, hup] using ih

namespace FileTree

variable {t : FileTree}

/-- A detour leads where its directory does. -/
theorem follow_detour (h : t.get? ⟨false, ["i"]⟩ = some .directory) (n : Nat)
    (names : List String) :
    t.follow ⟨false, []⟩ (detour n ++ names) = t.follow ⟨false, ["i"]⟩ names := by
  have hin : ∀ names, t.follow ⟨false, []⟩ ("i" :: names) = t.follow ⟨false, ["i"]⟩ names := by
    intro names
    rfl
  induction n with
  | zero => exact hin names
  | succ n ih =>
    rw [detour, List.cons_append, List.cons_append, hin, follow, h]
    exact ih

/-- The directory can be reached by a path that is just not too long, -/
theorem find_detourPath (h : t.get? ⟨false, ["i"]⟩ = some .directory) {n : Nat} (hn : n ≤ 818) :
    t.find (detourPath n) = .ok ⟨false, ["i"]⟩ := by
  have hsize := size_text_detourPath n []
  have hnull := any_null_detour n []
  have hfollow := follow_detour h n []
  rw [List.append_nil] at hsize hnull hfollow
  have hlast : (String.intercalate "/" ["i"]).utf8ByteSize = 1 := by decide
  have hshort : ¬ maxPathSize < 5 * n + 1 := by
    rw [maxPathSize]
    omega
  rw [find, detourPath, hnull, hsize, hlast, if_neg hshort]
  exact hfollow

/-- but what is in it cannot be looked up by it. -/
theorem find_child_detourPath (t : FileTree) {n : Nat} (hn : 818 ≤ n) :
    t.find ((detourPath n).child "x.txt") = .error .tooLong := by
  have hsize := size_text_detourPath n ["x.txt"]
  have hnull := any_null_detour n ["x.txt"]
  have hlast : (String.intercalate "/" ["i", "x.txt"]).utf8ByteSize = 7 := by decide
  have hname : (["x.txt"].any fun name => name.contains '\x00') = false := by cbv
  have hlong : maxPathSize < 5 * n + 7 := by
    rw [maxPathSize]
    omega
  rw [find, Path.child, detourPath, hnull, hname, hsize, hlast, if_pos hlong]
  rfl

end FileTree

/-- A tree with a file in the directory `i`. -/
def farTree : FileTree := ⟨[
  (⟨false, ["i"]⟩, .directory), (⟨false, ["i", "x.txt"]⟩, .file []), (⟨false, ["t"]⟩, .directory)]⟩

/-- The tree with the far directory is well formed. -/
theorem wellFormed_farTree : farTree.WellFormed := ⟨by decide, by decide⟩

/-- The detour leads to the far directory. -/
theorem find_farTree : farTree.find (detourPath 818) = .ok ⟨false, ["i"]⟩ :=
  FileTree.find_detourPath rfl le_rfl

/-- The far directory is one. -/
theorem isDirectory_farTree : farTree.isDirectory (detourPath 818) = .ok true :=
  FileTree.isDirectory_iff.mpr ⟨_, find_farTree, rfl⟩

/-- The far directory holds one name. -/
theorem namesIn_farTree : farTree.namesIn (detourPath 818) = ["x.txt"] := by
  rw [FileTree.namesIn, find_farTree]
  rfl

/-- The file is no descriptor, but that it is a file is found out by looking it up. -/
theorem filesIn_farTree : farTree.filesIn (detourPath 818) = [] := by
  have hfile : farTree.isFile ((detourPath 818).child "x.txt") = .error .tooLong :=
    FileTree.isFile_eq_error_iff.mpr ⟨FileTree.find_child_detourPath farTree le_rfl, rfl⟩
  rw [FileTree.filesIn, namesIn_farTree, List.filter_cons, hfile]
  rfl

/-- The far directory cannot be listed, for the path of what it holds is too long. -/
theorem list_farTree : Descriptor.list farTree (detourPath 818)
    = .error (.disk ((detourPath 818).child "x.txt") .tooLong) :=
  Descriptor.list_of_firstTooLong isDirectory_farTree ⟨[], [], namesIn_farTree,
    List.forall_mem_nil _, FileTree.find_child_detourPath farTree le_rfl⟩

end Ostinato

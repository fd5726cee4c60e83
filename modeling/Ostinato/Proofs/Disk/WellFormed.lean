import Mathlib.Data.List.Basic
import Mathlib.Data.List.Nodup
import Ostinato.Proofs.Disk.Growth
import Ostinato.Proofs.Table

/-!
# Well-formed trees

The entries of a tree are a list, and a list could name one place twice. A well-formed tree does
not, and so its entries are just what stands at their places, and a directory has each of its
files once (`WellFormed.mem_filesIn_iff`). Whatever is made or written in a well-formed tree, it
stays one.
-/

namespace Ostinato

namespace FileTree

variable {t t' : FileTree}

/-- A tree without two entries at one place, or any at the places that are always there. -/
structure WellFormed (t : FileTree) : Prop where
  nodup : (t.entries.map Prod.fst).Nodup
  proper : ∀ e ∈ t.entries, isBase e.1 = false

/-! ## Changes -/

/-- The empty tree is well formed. -/
theorem wellFormed_empty : empty.WellFormed :=
  ⟨List.nodup_nil, fun _ he => absurd he List.not_mem_nil⟩

/-- To set an entry adds its place at the end, if it is new. -/
theorem map_fst_setEntry (place : Place) (e : Entry) (entries : List (Place × Entry)) :
    (setEntry place e entries).map Prod.fst =
      if place ∈ entries.map Prod.fst then entries.map Prod.fst
      else entries.map Prod.fst ++ [place] := by
  induction entries with
  | nil => rfl
  | cons entry entries ih =>
    obtain ⟨p, old⟩ := entry
    rw [setEntry]
    by_cases hp : p = place
    · rw [if_pos hp, List.map_cons, List.map_cons, if_pos (hp ▸ List.mem_cons_self)]
    · rw [if_neg hp, List.map_cons, List.map_cons, ih]
      by_cases hmem : place ∈ entries.map Prod.fst
      · rw [if_pos hmem, if_pos (List.mem_cons_of_mem p hmem)]
      · have hnot : place ∉ p :: entries.map Prod.fst := by
          rw [List.mem_cons, not_or]
          exact ⟨Ne.symm hp, hmem⟩
        rw [if_neg hmem, if_neg hnot]
        rfl

/-- Whatever is put where something can be put, a tree stays well-formed. -/
theorem WellFormed.set (h : t.WellFormed) {place : Place} (hplace : isBase place = false)
    (e : Entry) : (t.set place e).WellFormed where
  nodup := by
    show ((setEntry place e t.entries).map Prod.fst).Nodup
    rw [map_fst_setEntry]
    split
    next => exact h.nodup
    next hnew =>
      refine List.nodup_append.mpr ⟨h.nodup, List.nodup_singleton place, ?_⟩
      intro p hp q hq heq
      rw [List.mem_singleton.mp hq] at heq
      exact hnew (heq ▸ hp)
  proper := by
    intro entry hentry
    have hfst : entry.1 ∈ (setEntry place e t.entries).map Prod.fst :=
      List.mem_map_of_mem hentry
    rw [map_fst_setEntry] at hfst
    have hold : entry.1 ∈ t.entries.map Prod.fst → isBase entry.1 = false := by
      intro hmem
      obtain ⟨old, hmem', heq⟩ := List.mem_map.mp hmem
      exact heq ▸ h.proper old hmem'
    split at hfst
    next => exact hold hfst
    next =>
      rcases List.mem_append.mp hfst with hmem | hmem
      · exact hold hmem
      · rw [List.mem_singleton.mp hmem]
        exact hplace

/-- A tree stays well formed when a directory is made. -/
theorem WellFormed.of_makeDirectory (h : t.WellFormed) {p : Path}
    (hmade : t.makeDirectory p = .ok t') : t'.WellFormed := by
  obtain ⟨place, -, ⟨-, rfl⟩ | ⟨hplace, rfl⟩⟩ := makeDirectory_eq_ok hmade
  · exact h
  · have hnew : t.get? place ≠ some .directory := by simp [hplace]
    exact h.set (isBase_eq_false hnew) .directory

/-- A tree stays well formed when a directory is added. -/
theorem WellFormed.addDirectory (h : t.WellFormed) (p : Path) :
    (t.addDirectory p).2.WellFormed := by
  rw [FileTree.addDirectory]
  cases hmade : t.makeDirectory p with
  | error fault => exact h
  | ok made => exact h.of_makeDirectory hmade

/-- A tree stays well formed when the directories of a way are made. -/
theorem WellFormed.makeDirectories (h : t.WellFormed) (root : PathRoot) (names : List String) :
    (t.makeDirectories root names).2.WellFormed := by
  induction names with
  | nil => exact h.addDirectory _
  | cons name names ih =>
    obtain ⟨-, hself⟩ | ⟨-, ⟨fault, left, hleft, hrefused⟩ | ⟨made, hmade, hself⟩⟩ :=
      makeDirectories_cons t root name names
    · rw [hself]
      exact h.addDirectory _
    · rw [hleft] at ih
      rwa [hrefused]
    · rw [hmade] at ih
      rw [hself]
      exact ih.addDirectory _

/-- Making directories leaves a well-formed tree well-formed, whether or not one is refused. -/
theorem WellFormed.makeWay (h : t.WellFormed) (p : Path) : (t.makeWay p).2.WellFormed :=
  h.makeDirectories p.root p.parts.reverse

/-- A tree stays well formed when a directory is made or found. -/
theorem WellFormed.of_ensureDirectory (h : t.WellFormed) {p : Path}
    (hmade : t.ensureDirectory p = .ok t') : t'.WellFormed := by
  have hleft := h.makeWay p
  rwa [ensureDirectory_eq_ok_iff.mp hmade] at hleft

/-- A tree stays well formed when a file is opened. -/
theorem WellFormed.of_openForWriting (h : t.WellFormed) {p : Path} {place : Place}
    (hopened : t.openForWriting p = .ok (place, t')) : t'.WellFormed := by
  obtain ⟨-, hplace, rfl⟩ := openForWriting_eq_ok_iff.mp hopened
  exact h.set (isBase_eq_false hplace) (.file [])

/-! ## Entries -/

/-- The places that are always there have no entry. -/
theorem WellFormed.lookup_eq_none (h : t.WellFormed) {place : Place}
    (hplace : isBase place = true) : t.entries.lookup place = none := by
  rw [List.lookup_eq_none_iff]
  intro e he
  rw [bne_iff_ne]
  rintro rfl
  rw [h.proper e he] at hplace
  cases hplace

/-- The entries of a well-formed tree are what stands at all places but those that are always
there. -/
theorem WellFormed.mem_places_iff (h : t.WellFormed) {place : Place} :
    place ∈ t.entries.map Prod.fst ↔ isBase place = false ∧ t.get? place ≠ none := by
  have hlookup : place ∈ t.entries.map Prod.fst ↔ t.entries.lookup place ≠ none := by
    rw [Ne, List.lookup_eq_none_iff, List.mem_map]
    push Not
    simp only [bne_eq_false_iff_eq, Bool.not_eq_true]
    exact ⟨fun ⟨e, he, heq⟩ => ⟨e, he, heq.symm⟩, fun ⟨e, he, heq⟩ => ⟨e, he, heq.symm⟩⟩
  rw [hlookup, get?]
  cases hbase : isBase place with
  | true => simp [h.lookup_eq_none hbase]
  | false => simp

/-! ## Listings -/

/-- A name stands below a place in the place of the child of that name. -/
theorem nameBelow?_eq_some_iff {here place : Place} {name : String} :
    nameBelow? here place = some name ↔ place = here.child name := by
  obtain ⟨absolute, names⟩ := place
  unfold nameBelow? Place.child
  constructor
  · intro h
    split_ifs at h with hparent
    obtain ⟨rfl, hnames⟩ := hparent
    rw [← hnames]
    dsimp only at h ⊢
    rw [List.dropLast_append_getLast? name h]
  · rintro ⟨⟩
    simp

/-- A directory has the names of the entries that stand directly below it. -/
theorem mem_namesIn_iff {p : Path} {name : String} :
    name ∈ t.namesIn p ↔
      ∃ here, t.find p = .ok here ∧ here.child name ∈ t.entries.map Prod.fst := by
  unfold namesIn
  cases t.find p with
  | error fault => simp
  | ok here => simp [nameBelow?_eq_some_iff]

/-- No name comes twice in a directory. -/
theorem WellFormed.nodup_namesIn (h : t.WellFormed) (p : Path) : (t.namesIn p).Nodup := by
  unfold namesIn
  cases t.find p with
  | error fault => exact List.nodup_nil
  | ok here =>
    have hplaces : t.entries.Pairwise fun e e' => e.1 ≠ e'.1 := List.pairwise_map.mp h.nodup
    refine List.Pairwise.filterMap _ ?_ hplaces
    rintro ⟨place, entry⟩ ⟨place', entry'⟩ hne name hname name' hname' heq
    -- one name stands below a directory at one place only
    apply hne
    have hplace : place = here.child name := nameBelow?_eq_some_iff.mp hname
    have hplace' : place' = here.child name' := nameBelow?_eq_some_iff.mp hname'
    rw [hplace, hplace', heq]

/-- The names in a directory that lead to files. -/
def filesIn (t : FileTree) (p : Path) : List String :=
  (t.namesIn p).filter fun name => t.isFile (p.child name) = .ok true

/-- The files in a directory have different names. -/
theorem WellFormed.nodup_filesIn (h : t.WellFormed) (p : Path) : (t.filesIn p).Nodup :=
  (h.nodup_namesIn p).filter _

/-- A name leads to a file if one stands directly in the directory and is found under it. -/
theorem WellFormed.mem_filesIn_iff (h : t.WellFormed) {p : Path} {name : String} :
    name ∈ t.filesIn p ↔
      ∃ here data, t.find p = .ok here ∧ t.find (p.child name) = .ok (here.child name) ∧
        t.get? (here.child name) = some (.file data) := by
  rw [filesIn, List.mem_filter, decide_eq_true_iff, mem_namesIn_iff, isFile_iff]
  constructor
  · rintro ⟨⟨here, hhere, -⟩, place, data, hplace, hdata⟩
    have hname : name ≠ ".." := by
      rintro rfl
      rw [find_up hhere hplace, get?_above_of_find hhere] at hdata
      cases hdata
    obtain rfl := eq_child_of_find hhere hname hplace
    exact ⟨here, data, hhere, hplace, hdata⟩
  · rintro ⟨here, data, hhere, hplace, hdata⟩
    have hfile : t.get? (here.child name) ≠ some .directory := by simp [hdata]
    exact ⟨⟨here, hhere, h.mem_places_iff.mpr ⟨isBase_eq_false hfile, by simp [hdata]⟩⟩,
      _, data, hplace, hdata⟩

/-- All that is in a directory can be looked up: no path to any of it is too long for that. -/
def Listable (t : FileTree) (p : Path) : Prop :=
  ∀ name ∈ t.namesIn p, t.find (p.child name) ≠ .error .tooLong

/-- The first name in a directory that cannot be looked up: the path to it is too long. -/
def FirstTooLong (t : FileTree) (p : Path) (name : String) : Prop :=
  ∃ before after, t.namesIn p = before ++ name :: after ∧
    (∀ other ∈ before, t.find (p.child other) ≠ .error .tooLong) ∧
    t.find (p.child name) = .error .tooLong

/-- If not all in a directory can be looked up, there is a first name that cannot be. -/
theorem exists_firstTooLong {p : Path} (h : ¬ t.Listable p) : ∃ name, t.FirstTooLong p name := by
  unfold Listable at h
  push Not at h
  obtain ⟨name, hname, htooLong⟩ := h
  have hsome : ((t.namesIn p).find? fun name =>
      t.find (p.child name) = .error .tooLong).isSome := by
    rw [List.find?_isSome]
    exact ⟨name, hname, by simpa using htooLong⟩
  obtain ⟨first, hfirst⟩ := Option.isSome_iff_exists.mp hsome
  obtain ⟨hname, before, after, hnames, hbefore⟩ := List.find?_eq_some_iff_append.mp hfirst
  exact ⟨first, before, after, hnames, fun other hother => by simpa using hbefore other hother,
    by simpa using hname⟩

end FileTree

end Ostinato

import Mathlib.Logic.Function.Iterate
import Mathlib.Tactic.SplitIfs
import Ostinato.Disk.Tree

/-!
# Reading what was written

An entry that is put at a place stands there afterwards, and everywhere else the tree is as it was.
Only directories lead on to further names. So as long as no directory is replaced, every path still
leads where it led before, and reading a file gives what was written to it last (`read_set`).
-/

namespace Ostinato

/-- The place of a name directly below a place. -/
def Place.child (here : Place) (name : String) : Place :=
  { here with names := here.names ++ [name] }

/-- A place is below one place only, and by one name. -/
theorem Place.child_inj {here here' : Place} {name name' : String}
    (h : here.child name = here'.child name') : here = here' ∧ name = name' := by
  obtain ⟨absolute, names⟩ := here
  obtain ⟨absolute', names'⟩ := here'
  simp only [Place.child, Place.mk.injEq] at h
  obtain ⟨rfl, hnames⟩ := h
  obtain ⟨rfl, hname⟩ := List.append_inj' hnames rfl
  exact ⟨rfl, List.singleton_inj.mp hname⟩

namespace FileTree

variable {t : FileTree} {place : Place} {e : Entry}

/-- The first entry is what is found in its place, and elsewhere the others are. -/
theorem lookup_entry (q p : Place) (e : Entry) (entries : List (Place × Entry)) :
    ((p, e) :: entries).lookup q = if q = p then some e else entries.lookup q := by
  by_cases hq : q = p
  · simp [hq]
  · have hne : (q == p) = false := beq_false_of_ne hq
    rw [List.lookup_cons, hne, if_neg hq]

/-- What is set in a place is found there, and elsewhere what was found before. -/
theorem lookup_setEntry (place q : Place) (e : Entry) (entries : List (Place × Entry)) :
    (setEntry place e entries).lookup q = if q = place then some e else entries.lookup q := by
  induction entries with
  | nil => exact lookup_entry q place e []
  | cons entry entries ih =>
    obtain ⟨p, old⟩ := entry
    rw [setEntry, lookup_entry]
    by_cases hp : p = place
    · subst hp
      rw [if_pos rfl, lookup_entry]
      split_ifs <;> rfl
    · rw [if_neg hp, lookup_entry, ih]
      -- the entry in front is another one, so both orders of asking agree
      by_cases hq : q = p
      · subst hq
        simp only [if_neg hp, if_true]
      · rw [if_neg hq, if_neg hq]

/-- The directories that are always there cannot be replaced; any other place takes the entry. -/
theorem get?_set_self (h : isBase place = false) : (t.set place e).get? place = some e := by
  simp [get?, set, h, lookup_setEntry]

/-- What is set in one place changes no other. -/
theorem get?_set_of_ne {q : Place} (h : q ≠ place) : (t.set place e).get? q = t.get? q := by
  simp [get?, set, lookup_setEntry, h]

/-- A place without a directory is no base. -/
theorem isBase_eq_false (h : t.get? place ≠ some .directory) : isBase place = false := by
  rw [Bool.eq_false_iff]
  intro hbase
  exact h (by simp [get?, hbase])

/-- A path is a directory if it leads to a place that holds one. -/
theorem isDirectory_iff {p : Path} :
    t.isDirectory p = .ok true ↔ ∃ here, t.find p = .ok here ∧ t.get? here = some .directory := by
  unfold isDirectory look
  cases t.find p with
  | error fault => cases fault <;> simp
  | ok here =>
    dsimp only
    cases hget : t.get? here with
    | none => simp [hget]
    | some found => cases found <;> simp [hget]

/-- What is a file is found, and a file stands there. -/
theorem isFile_iff {p : Path} :
    t.isFile p = .ok true ↔
      ∃ here data, t.find p = .ok here ∧ t.get? here = some (.file data) := by
  unfold isFile look
  cases t.find p with
  | error fault => cases fault <;> simp
  | ok here =>
    dsimp only
    cases hget : t.get? here with
    | none => simp [hget]
    | some found => cases found <;> simp [hget]

/-- A path is not looked up for one reason only: it is too long. -/
theorem isFile_eq_error_iff {p : Path} {fault : DiskFault} :
    t.isFile p = .error fault ↔ t.find p = .error .tooLong ∧ fault = .tooLong := by
  unfold isFile look
  cases t.find p with
  | error cause => cases cause <;> simp [eq_comm]
  | ok here =>
    dsimp only
    cases t.get? here <;> simp

/-! ## Ways -/

/-- To follow two ways is to follow the first and then, from its end, the second. -/
theorem follow_append (here : Place) (names names' : List String) :
    t.follow here (names ++ names') = (t.follow here names).bind (t.follow · names') := by
  induction names generalizing here with
  | nil => rfl
  | cons name names ih =>
    rw [List.cons_append, follow, follow]
    cases t.get? here with
    | none => rfl
    | some found =>
      cases found with
      | file data => rfl
      | directory =>
        dsimp only
        split_ifs
        · exact ih _
        · rfl
        · exact ih _

/-- A last name leads on from where the others lead, unless it or the whole path is none that can
be. -/
theorem find_child {dir : Path} {here : Place} (hfind : t.find dir = .ok here) (name : String) :
    t.find (dir.child name) =
      if name.contains '\x00' then .error .badName
      else if maxPathSize < (dir.child name).text.utf8ByteSize then .error .tooLong
      else t.follow here [name] := by
  rw [find] at hfind
  split_ifs at hfind with hbad hlong
  have hany : ((dir.child name).parts.any fun name => name.contains '\x00')
      = name.contains '\x00' := by
    simp only [Path.child, List.any_append, Bool.not_eq_true] at hbad ⊢
    rw [hbad, List.any_cons, List.any_nil, Bool.or_false, Bool.false_or]
  have hfollow : t.follow ⟨decide ((dir.child name).root ≠ .working), []⟩ (dir.child name).parts
      = t.follow here [name] := by
    rw [Path.child, follow_append, hfind]
    rfl
  rw [find, hany, hfollow]

/-- What is found under a name stands directly below. -/
theorem eq_child_of_find {dir : Path} {here : Place} (hfind : t.find dir = .ok here) {name : String}
    (hname : name ≠ "..") (h : t.find (dir.child name) = .ok place) : place = here.child name := by
  rw [find_child hfind] at h
  split_ifs at h
  rw [follow] at h
  split at h
  next => cases h
  next => cases h
  next =>
    rw [if_neg hname] at h
    split_ifs at h
    cases h
    rfl

/-- The name of the way up leads to the place above. -/
theorem find_up {dir : Path} {here : Place} (hfind : t.find dir = .ok here)
    (h : t.find (dir.child "..") = .ok place) : place = above here := by
  rw [find_child hfind] at h
  split_ifs at h
  rw [follow] at h
  split at h
  next => cases h
  next => cases h
  next =>
    rw [if_pos rfl] at h
    cases h
    rfl

/-- A name that is no step up is left again by one. -/
theorem above_child {here : Place} {name : String} (hname : name ≠ "..") :
    above (here.child name) = here := by
  obtain ⟨absolute, names⟩ := here
  have hbase : isBase ((⟨absolute, names⟩ : Place).child name) = false := by
    simp [isBase, Place.child, hname]
  rw [above, hbase]
  simp [Place.child]

/-- Above what a way comes to there are directories only, as far up as one goes. -/
theorem get?_iterate_above_of_follow {here dest : Place} {names : List String}
    (hhere : ∀ n, t.get? (above^[n + 1] here) = some .directory)
    (h : t.follow here names = .ok dest) (n : Nat) :
    t.get? (above^[n + 1] dest) = some .directory := by
  induction names generalizing here with
  | nil =>
    cases h
    exact hhere n
  | cons name names ih =>
    rw [follow] at h
    split at h
    next => cases h
    next => cases h
    next hdirectory =>
      split_ifs at h with hup
      · exact ih (fun m => hhere (m + 1)) h
      · refine ih (fun m => ?_) h
        rw [Function.iterate_succ_apply]
        show t.get? (above^[m] (above (here.child name))) = _
        rw [above_child hup]
        cases m with
        | zero => exact hdirectory
        | succ m => exact hhere m

/-- What is above a base is one. -/
theorem isBase_above (h : isBase place = true) : isBase (above place) = true := by
  obtain ⟨absolute, names⟩ := place
  rw [isBase, List.all_eq_true] at h
  rw [above]
  split_ifs
  · simpa [isBase] using h
  · rw [isBase, List.all_eq_true]
    exact fun name hname => h name ((List.dropLast_prefix names).subset hname)

/-- Above what a path leads to there is a directory. -/
theorem get?_above_of_find {p : Path} (h : t.find p = .ok place) :
    t.get? (above place) = some .directory := by
  rw [find] at h
  split_ifs at h
  refine get?_iterate_above_of_follow (fun n => ?_) h 0
  have hbase : isBase (above^[n + 1] ⟨decide (p.root ≠ .working), []⟩) = true := by
    induction n with
    | zero => exact isBase_above rfl
    | succ n ih =>
      rw [Function.iterate_succ_apply']
      exact isBase_above ih
  rw [get?, if_pos hbase]

/-! ## Changes -/

/-- A way leads past directories only, so it does not notice a change anywhere else. -/
theorem follow_set (hplace : t.get? place ≠ some .directory) {here dest : Place}
    {names : List String} (h : t.follow here names = .ok dest) :
    (t.set place e).follow here names = .ok dest := by
  induction names generalizing here with
  | nil => exact h
  | cons name names ih =>
    rw [follow] at h
    cases hhere : t.get? here with
    | none => rw [hhere] at h; cases h
    | some found =>
      rw [hhere] at h
      cases found with
      | file data => cases h
      | directory =>
        have hne : here ≠ place := fun heq => hplace (heq ▸ hhere)
        rw [follow, get?_set_of_ne hne, hhere]
        dsimp only at h ⊢
        split_ifs at h ⊢
        · exact ih h
        · exact ih h

/-- A way that leads to some place still does after something is set where no directory is. -/
theorem find_set (hplace : t.get? place ≠ some .directory) {p : Path} {dest : Place}
    (h : t.find p = .ok dest) : (t.set place e).find p = .ok dest := by
  rw [find] at h ⊢
  split_ifs at h ⊢
  exact follow_set hplace h

/-- What is written to a file is read from it. -/
theorem read_set {p : Path} (hfind : t.find p = .ok place)
    (hplace : t.get? place ≠ some .directory) (data : List UInt8) :
    (t.set place (.file data)).read p = .ok data := by
  rw [read, look, find_set hplace hfind]
  dsimp only
  rw [get?_set_self (isBase_eq_false hplace)]

/-- A file can be opened where a path leads to no directory, and is empty then. -/
theorem openForWriting_eq_ok_iff {p : Path} {t' : FileTree} :
    t.openForWriting p = .ok (place, t') ↔
      t.find p = .ok place ∧ t.get? place ≠ some .directory ∧ t' = t.set place (.file []) := by
  rw [openForWriting]
  cases t.find p with
  | error fault => simp
  | ok dest =>
    dsimp only
    split
    next hdest =>
      refine ⟨fun h => (by cases h), fun ⟨hfind, hplace, _⟩ => ?_⟩
      cases hfind
      exact absurd hdest hplace
    next hdest =>
      constructor
      · rintro ⟨⟩
        exact ⟨rfl, hdest, rfl⟩
      · rintro ⟨⟨⟩, -, rfl⟩
        rfl

/-- A directory is made with all above it if nothing on the way is refused. -/
theorem ensureDirectory_eq_ok_iff {p : Path} {t' : FileTree} :
    t.ensureDirectory p = .ok t' ↔ t.makeWay p = (.ok (), t') := by
  rw [ensureDirectory]
  obtain ⟨outcome, left⟩ := t.makeWay p
  cases outcome <;> simp

/-- A file that is open for writing holds what is then put into it. -/
theorem read_of_openForWriting {p : Path} {t' : FileTree}
    (h : t.openForWriting p = .ok (place, t')) (data : List UInt8) :
    (t'.set place (.file data)).read p = .ok data := by
  obtain ⟨hfind, hplace, rfl⟩ := openForWriting_eq_ok_iff.mp h
  -- opening leaves the file empty, and so still no directory
  refine read_set (find_set hplace hfind) ?_ data
  rw [get?_set_self (isBase_eq_false hplace)]
  exact fun heq => by cases heq

end FileTree

end Ostinato

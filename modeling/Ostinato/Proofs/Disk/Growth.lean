import Ostinato.Proofs.Disk.Tree

/-!
# Making directories

Where directories are made, nothing is taken away and nothing is replaced: a tree grows, and only by
directories where there was nothing. For making a directory with whatever is missing above it,
`grows_of_ensureDirectory` says which directories these can be: those on the way to it. Once they
are there nothing on the way to a file is missing (`openForWriting_ne_notFound`).
-/

namespace Ostinato

/-- The paths to a path's own directory and to the directories above it. -/
def Path.IsAtOrAbove (p q : Path) : Prop := p.root = q.root ∧ p.parts <+: q.parts

/-- A path that ends in a name is a child of that name. -/
theorem Path.eq_child {p : Path} {names : List String} {name : String}
    (h : p.parts = names ++ [name]) : p = (⟨p.root, names⟩ : Path).child name := by
  cases p
  cases h
  rfl

namespace FileTree

variable {t t' t'' : FileTree} {way way' : Path → Prop}

/-- A tree that has grown by directories, each where one of some paths leads. -/
structure Grows (t t' : FileTree) (way : Path → Prop) : Prop where
  get? : ∀ place, t'.get? place = t.get? place ∨
    t.get? place = none ∧ t'.get? place = some .directory ∧ ∃ p, way p ∧ t'.find p = .ok place
  find : ∀ p place, t.find p = .ok place → t'.find p = .ok place

/-- Every tree grows into itself. -/
theorem Grows.refl (t : FileTree) (way : Path → Prop) : t.Grows t way :=
  ⟨fun _ => Or.inl rfl, fun _ _ h => h⟩

/-- What grows along some ways grows along more. -/
theorem Grows.mono (h : t.Grows t' way) (hway : ∀ p, way p → way' p) : t.Grows t' way' where
  get? place := by
    obtain hsame | ⟨hnone, hdirectory, p, hp, hfind⟩ := h.get? place
    · exact Or.inl hsame
    · exact Or.inr ⟨hnone, hdirectory, p, hway p hp, hfind⟩
  find := h.find

/-- A tree that grows twice along some ways grows along these. -/
theorem Grows.trans (h : t.Grows t' way) (h' : t'.Grows t'' way) : t.Grows t'' way where
  get? place := by
    obtain hsame | ⟨hnone, hdirectory, p, hp, hfind⟩ := h.get? place
    · rw [← hsame]
      exact h'.get? place
    · -- what has grown stays, and is still found
      refine Or.inr ⟨hnone, ?_, p, hp, h'.find p place hfind⟩
      obtain hsame' | ⟨hnone', -⟩ := h'.get? place
      · rw [hsame', hdirectory]
      · rw [hdirectory] at hnone'; cases hnone'
  find p place hfind := h'.find p place (h.find p place hfind)

/-- What making one directory does: nothing where there is one, and otherwise it puts one where
nothing was. -/
theorem makeDirectory_eq_ok {p : Path} (h : t.makeDirectory p = .ok t') :
    ∃ place, t.find p = .ok place ∧
      (t.get? place = some .directory ∧ t' = t ∨
        t.get? place = none ∧ t' = t.set place .directory) := by
  unfold makeDirectory at h
  split at h
  next => cases h
  next place hfind =>
    refine ⟨place, hfind, ?_⟩
    split at h
    next hplace =>
      cases h
      exact Or.inl ⟨hplace, rfl⟩
    next => cases h
    next hplace =>
      cases h
      exact Or.inr ⟨hplace, rfl⟩

/-- Adding a directory is making it. -/
theorem addDirectory_eq_ok_iff {p : Path} :
    t.addDirectory p = (.ok (), t') ↔ t.makeDirectory p = .ok t' := by
  rw [addDirectory]
  cases t.makeDirectory p <;> simp

/-- A directory is made at once unless the way to it is missing; then those above it are made
first, and if one of them is refused, that is how it ends. -/
theorem makeDirectories_cons (t : FileTree) (root : PathRoot) (name : String)
    (names : List String) :
    (t.makeDirectory ⟨root, (name :: names).reverse⟩ ≠ .error .notFound ∧
      t.makeDirectories root (name :: names)
        = t.addDirectory ⟨root, (name :: names).reverse⟩) ∨
    t.makeDirectory ⟨root, (name :: names).reverse⟩ = .error .notFound ∧
      ((∃ fault left, t.makeDirectories root names = (.error fault, left) ∧
        t.makeDirectories root (name :: names) = (.error fault, left)) ∨
      ∃ made, t.makeDirectories root names = (.ok (), made) ∧
        t.makeDirectories root (name :: names)
          = made.addDirectory ⟨root, (name :: names).reverse⟩) := by
  rw [makeDirectories, addDirectory]
  cases t.makeDirectory ⟨root, (name :: names).reverse⟩ with
  | ok made => exact .inl ⟨nofun, rfl⟩
  | error fault =>
    cases fault with
    | notFound =>
      refine .inr ⟨rfl, ?_⟩
      dsimp only
      obtain ⟨outcome, left⟩ := t.makeDirectories root names
      cases outcome with
      | error fault => exact .inl ⟨fault, left, rfl, rfl⟩
      | ok _ => exact .inr ⟨left, rfl, rfl⟩
    | _ => exact .inl ⟨nofun, rfl⟩

/-- A directory is made in a tree in which, if need be, those above it were made first. -/
theorem makeDirectories_cons_eq_ok {root : PathRoot} {name : String} {names : List String}
    (h : t.makeDirectories root (name :: names) = (.ok (), t')) :
    t.makeDirectory ⟨root, (name :: names).reverse⟩ = .ok t' ∨
      ∃ made, t.makeDirectories root names = (.ok (), made) ∧
        made.makeDirectory ⟨root, (name :: names).reverse⟩ = .ok t' := by
  obtain ⟨-, hself⟩ | ⟨-, ⟨fault, left, -, hrefused⟩ | ⟨made, hmade, hself⟩⟩ :=
    makeDirectories_cons t root name names
  · exact .inl (addDirectory_eq_ok_iff.mp (hself.symm.trans h))
  · rw [hrefused] at h
    cases h
  · exact .inr ⟨made, hmade, addDirectory_eq_ok_iff.mp (hself.symm.trans h)⟩

/-- To make a directory is to grow along its path. -/
theorem grows_of_makeDirectory {p : Path} (h : t.makeDirectory p = .ok t') (hp : way p) :
    t.Grows t' way := by
  obtain ⟨place, hfind, ⟨-, rfl⟩ | ⟨hplace, rfl⟩⟩ := makeDirectory_eq_ok h
  · exact Grows.refl t' way
  · have hnew : t.get? place ≠ some .directory := by simp [hplace]
    refine ⟨fun q => ?_, fun _ _ => find_set hnew⟩
    by_cases hq : q = place
    · subst hq
      exact Or.inr ⟨hplace, get?_set_self (isBase_eq_false hnew), p, hp, find_set hnew hfind⟩
    · exact Or.inl (get?_set_of_ne hq)

/-- To add a directory, made or found, is to grow along its path. -/
theorem grows_addDirectory {p : Path} (hp : way p) : t.Grows (t.addDirectory p).2 way := by
  rw [addDirectory]
  cases hmade : t.makeDirectory p with
  | error fault => exact .refl t way
  | ok made => exact grows_of_makeDirectory hmade hp

/-- Whether or not a directory can be made in the end, those above it are made as far as they can be
and are missing, and nothing else happens. -/
theorem grows_makeDirectories (t : FileTree) (root : PathRoot) (names : List String) :
    t.Grows (t.makeDirectories root names).2 (·.IsAtOrAbove ⟨root, names.reverse⟩) := by
  induction names with
  | nil => exact grows_addDirectory ⟨rfl, List.prefix_rfl⟩
  | cons name names ih =>
    have habove : t.Grows (t.makeDirectories root names).2
        (·.IsAtOrAbove ⟨root, (name :: names).reverse⟩) :=
      ih.mono fun p hp =>
        ⟨hp.1, hp.2.trans (by rw [List.reverse_cons]; exact List.prefix_append _ _)⟩
    obtain ⟨-, hself⟩ | ⟨-, ⟨fault, left, hleft, hrefused⟩ | ⟨made, hmade, hself⟩⟩ :=
      makeDirectories_cons t root name names
    · rw [hself]
      exact grows_addDirectory ⟨rfl, List.prefix_rfl⟩
    · rw [hleft] at habove
      rwa [hrefused]
    · rw [hmade] at habove
      rw [hself]
      exact habove.trans (grows_addDirectory ⟨rfl, List.prefix_rfl⟩)

/-- What making a directory leaves has grown by directories on the way to it. -/
theorem grows_makeWay (t : FileTree) (p : Path) : t.Grows (t.makeWay p).2 (·.IsAtOrAbove p) := by
  have hgrows := grows_makeDirectories t p.root p.parts.reverse
  rwa [List.reverse_reverse] at hgrows

/-- Making a directory makes it and those above it, as far as they are missing. -/
theorem grows_of_ensureDirectory {p : Path} (h : t.ensureDirectory p = .ok t') :
    t.Grows t' (·.IsAtOrAbove p) := by
  have hgrows := grows_makeWay t p
  rwa [ensureDirectory_eq_ok_iff.mp h] at hgrows

/-- A child of a directory is never missing on the way. -/
theorem find_child_ne_notFound {dir : Path} (hdir : t.look dir = .ok .directory) (name : String) :
    t.find (dir.child name) ≠ .error .notFound := by
  rw [look] at hdir
  split at hdir
  next => cases hdir
  next here hfind =>
    split at hdir
    next hhere =>
      cases hdir
      rw [find_child hfind, follow, hhere]
      dsimp only [follow]
      split_ifs <;> exact fun h => by cases h
    next => cases hdir

/-- Where a directory was made there is one. -/
theorem look_of_makeDirectory {p : Path} (h : t.makeDirectory p = .ok t') :
    t'.look p = .ok .directory := by
  unfold look
  obtain ⟨place, hfind, ⟨hplace, rfl⟩ | ⟨hplace, rfl⟩⟩ := makeDirectory_eq_ok h
  · simp only [hfind, hplace]
  · have hnew : t.get? place ≠ some .directory := by simp [hplace]
    simp only [find_set hnew hfind, get?_set_self (isBase_eq_false hnew)]

/-- Making a directory refuses with `notFound` only if the way to it is missing. -/
theorem find_of_makeDirectory_notFound {p : Path} (h : t.makeDirectory p = .error .notFound) :
    t.find p = .error .notFound := by
  rw [makeDirectory] at h
  split at h
  next fault hfind =>
    cases h
    exact hfind
  next =>
    split at h <;> cases h

/-- When the directories of a way are made, a directory stands at its end. -/
theorem look_of_makeDirectories {root : PathRoot} {names : List String}
    (h : t.makeDirectories root names = (.ok (), t')) :
    t'.look ⟨root, names.reverse⟩ = .ok .directory := by
  cases names with
  | nil => exact look_of_makeDirectory (addDirectory_eq_ok_iff.mp h)
  | cons name names =>
    obtain hself | ⟨made, -, hself⟩ := makeDirectories_cons_eq_ok h
    · exact look_of_makeDirectory hself
    · exact look_of_makeDirectory hself

/-- Adding a directory fails just as making it does. -/
theorem addDirectory_eq_error_iff {p : Path} {fault : DiskFault} :
    (t.addDirectory p).1 = .error fault ↔ t.makeDirectory p = .error fault := by
  rw [addDirectory]
  cases t.makeDirectory p <;> simp

/-- With all above it made first, no directory is refused for a missing way. -/
theorem makeDirectories_ne_notFound (t : FileTree) (root : PathRoot) (names : List String) :
    (t.makeDirectories root names).1 ≠ .error .notFound := by
  induction names with
  | nil =>
    -- every walk starts in a directory that is always there
    intro h
    have hfind : t.find ⟨root, []⟩ = .ok ⟨decide (root ≠ .working), []⟩ := by
      cases root <;> rfl
    have hmissing := find_of_makeDirectory_notFound (addDirectory_eq_error_iff.mp h)
    rw [hfind] at hmissing
    cases hmissing
  | cons name names ih =>
    intro h
    obtain ⟨hother, hself⟩ | ⟨-, ⟨fault, left, hleft, hrefused⟩ | ⟨made, hmade, hself⟩⟩ :=
      makeDirectories_cons t root name names
    · rw [hself] at h
      exact hother (addDirectory_eq_error_iff.mp h)
    · rw [hrefused] at h
      rw [hleft] at ih
      exact ih h
    · rw [hself] at h
      have hmissing := find_of_makeDirectory_notFound (addDirectory_eq_error_iff.mp h)
      have hchild : (⟨root, (name :: names).reverse⟩ : Path)
          = (⟨root, names.reverse⟩ : Path).child name := Path.eq_child List.reverse_cons
      rw [hchild] at hmissing
      exact find_child_ne_notFound (look_of_makeDirectories hmade) name hmissing

/-- Below a directory that was made a file can be opened, or what stands in the way is there. -/
theorem openForWriting_ne_notFound {p : Path} (h : t.ensureDirectory p.parent = .ok t') :
    t'.openForWriting p ≠ .error .notFound := by
  have hparent : t'.look p.parent = .ok .directory := by
    have hlook := look_of_makeDirectories (ensureDirectory_eq_ok_iff.mp h)
    rwa [List.reverse_reverse] at hlook
  have hfind : t'.find p ≠ .error .notFound := by
    rcases List.eq_nil_or_concat p.parts with hnil | ⟨names, name, hparts⟩
    · have hself : p.parent = p := by
        cases p
        cases hnil
        rfl
      intro hmissing
      rw [hself, look, hmissing] at hparent
      cases hparent
    · rw [List.concat_eq_append] at hparts
      rw [Path.eq_child hparts]
      refine find_child_ne_notFound ?_ name
      rwa [Path.parent, hparts, List.dropLast_concat] at hparent
  intro hopen
  rw [openForWriting] at hopen
  split at hopen
  next fault hfault =>
    cases hopen
    exact hfind hfault
  next => split at hopen <;> cases hopen

end FileTree

end Ostinato

import Ostinato.Proofs.Disk.Agreement

/-!
# One file more

A tree gains a file where nothing stood. Every way that led somewhere still leads there, since a
file is nothing that a way leads past (`Gains.find_eq_ok_iff`). What was there is read as before
(`Gains.read_eq_ok`), and only the directory of the new file has one name more
(`Gains.filesIn_perm_cons`). Making directories does the same in both trees unless one is made where
the file stands (`Gains.ensureDirectory`).
-/

namespace Ostinato

namespace FileTree

variable {t t' : FileTree} {place : Place} {data : List UInt8}

/-- A tree that has got a file where nothing stood. -/
structure Gains (t t' : FileTree) (place : Place) (data : List UInt8) : Prop where
  absent : t.get? place = none
  present : t'.get? place = some (.file data)
  others : ∀ q ≠ place, t'.get? q = t.get? q

/-- A tree with a file set where nothing was has gained that file. -/
theorem gains_set (hbase : isBase place = false) (hnew : t.get? place = none) (data : List UInt8) :
    t.Gains (t.set place (.file data)) place data :=
  ⟨hnew, get?_set_self hbase, fun _ hq => get?_set_of_ne hq⟩

/-- The way to a path does not come by a place: neither the path nor any above it leads there. -/
def Avoids (t : FileTree) (p : Path) (place : Place) : Prop :=
  ∀ above : Path, above.IsAtOrAbove p → t.find above ≠ .ok place

/-! ## Ways -/

/-- A way that the new file ends was at its end before: nothing stood there. -/
theorem Gains.follow_eq_or (h : t.Gains t' place data) (here : Place) (names : List String) :
    t'.follow here names = t.follow here names ∨
      t.follow here names = .error .notFound ∧ t'.follow here names = .error .notADirectory := by
  induction names generalizing here with
  | nil => exact Or.inl rfl
  | cons name names ih =>
    by_cases hhere : here = place
    · subst hhere
      right
      rw [follow, follow, h.absent, h.present]
      exact ⟨rfl, rfl⟩
    · rw [follow, follow, h.others here hhere]
      cases t.get? here with
      | none => exact Or.inl rfl
      | some found =>
        cases found with
        | file bytes => exact Or.inl rfl
        | directory =>
          dsimp only
          split_ifs
          · exact ih _
          · exact Or.inl rfl
          · exact ih _

/-- A way is followed as before, except that one that led through nothing may now lead through the
file. -/
theorem Gains.find_eq_or (h : t.Gains t' place data) (p : Path) :
    t'.find p = t.find p ∨ t.find p = .error .notFound ∧ t'.find p = .error .notADirectory := by
  unfold find
  split_ifs
  · exact Or.inl rfl
  · exact Or.inl rfl
  · exact h.follow_eq_or _ _

/-- The ways that can be followed lead to the same places. -/
theorem Gains.find_eq_ok_iff (h : t.Gains t' place data) {p : Path} {q : Place} :
    t'.find p = .ok q ↔ t.find p = .ok q := by
  obtain hsame | ⟨hbefore, hafter⟩ := h.find_eq_or p
  · rw [hsame]
  · rw [hbefore, hafter]
    simp

/-- Without a step up, a way leads along its own names. -/
theorem eq_of_follow {here dest : Place} {names : List String} (hup : ".." ∉ names)
    (h : t.follow here names = .ok dest) : dest = { here with names := here.names ++ names } := by
  induction names generalizing here with
  | nil =>
    cases h
    rw [List.append_nil]
  | cons name names ih =>
    rw [List.mem_cons, not_or] at hup
    rw [follow] at h
    split at h
    next => cases h
    next => cases h
    next =>
      rw [if_neg (Ne.symm hup.1)] at h
      split_ifs at h
      rw [ih hup.2 h, List.append_assoc]
      rfl

/-- A path without a step up avoids whatever is not on its way by name. -/
theorem avoids_of_parts {p : Path} (hup : ".." ∉ p.parts)
    (hplace : place.absolute = decide (p.root ≠ .working) → ¬ place.names <+: p.parts) :
    t.Avoids p place := by
  rintro above ⟨hroot, hparts⟩ hfind
  rw [find] at hfind
  split_ifs at hfind
  have hdest := eq_of_follow (fun hmem => hup (hparts.subset hmem)) hfind
  subst hdest
  rw [hroot] at hplace
  exact hplace rfl hparts

/-! ## Looking -/

/-- The same paths are directories. -/
theorem Gains.isDirectory_eq (h : t.Gains t' place data) (p : Path) :
    t'.isDirectory p = t.isDirectory p := by
  unfold isDirectory look
  obtain hsame | ⟨hbefore, hafter⟩ := h.find_eq_or p
  · rw [hsame]
    cases t.find p with
    | error fault => rfl
    | ok q =>
      dsimp only
      by_cases hq : q = place
      · subst hq
        rw [h.absent, h.present]
        rfl
      · rw [h.others q hq]
  · rw [hbefore, hafter]

/-- What could be read is read the same. -/
theorem Gains.read_eq_ok (h : t.Gains t' place data) {p : Path} {bytes : List UInt8}
    (hread : t.read p = .ok bytes) : t'.read p = .ok bytes := by
  unfold read look at hread ⊢
  cases hfind : t.find p with
  | error fault => rw [hfind] at hread; cases hread
  | ok q =>
    rw [hfind] at hread
    rw [h.find_eq_ok_iff.mpr hfind]
    dsimp only at hread ⊢
    have hq : q ≠ place := by
      rintro rfl
      rw [h.absent] at hread
      cases hread
    rwa [h.others q hq]

/-! ## Listing -/

section Listing

variable {here : Place} {name : String} (h : t.Gains t' (here.child name) data)
  (ht : t.WellFormed) (ht' : t'.WellFormed)

include h ht ht'

/-- In the directory of the new file its name comes to those that were there. -/
theorem Gains.namesIn_perm_cons {p : Path} (hfind : t.find p = .ok here) :
    (t'.namesIn p).Perm (name :: t.namesIn p) := by
  have hnew : name ∉ t.namesIn p := by
    rw [mem_namesIn_iff]
    rintro ⟨here', hfind', hplace⟩
    rw [hfind] at hfind'
    cases hfind'
    exact (ht.mem_places_iff.mp hplace).2 h.absent
  have hbase : isBase (here.child name) = false := isBase_eq_false (t := t) (by simp [h.absent])
  rw [List.perm_ext_iff_of_nodup (ht'.nodup_namesIn p)
    (List.nodup_cons.mpr ⟨hnew, ht.nodup_namesIn p⟩)]
  intro other
  simp only [List.mem_cons, mem_namesIn_iff, ht'.mem_places_iff, ht.mem_places_iff,
    h.find_eq_ok_iff, hfind, Except.ok.injEq, exists_eq_left']
  by_cases hother : other = name
  · subst hother
    simp [h.present, hbase]
  · have hne : here.child other ≠ here.child name := fun heq => hother (Place.child_inj heq).2
    rw [h.others _ hne]
    simp [hother]

/-- If the new file is found under its name, it comes to the files that were there. -/
theorem Gains.filesIn_perm_cons {p : Path} (hfind : t.find p = .ok here)
    (hfound : t'.find (p.child name) = .ok (here.child name)) :
    (t'.filesIn p).Perm (name :: t.filesIn p) := by
  have hnew : name ∉ t.filesIn p := by
    rw [ht.mem_filesIn_iff]
    rintro ⟨here', bytes, hfind', -, hget⟩
    rw [hfind] at hfind'
    cases hfind'
    rw [h.absent] at hget
    cases hget
  rw [h.find_eq_ok_iff] at hfound
  rw [List.perm_ext_iff_of_nodup (ht'.nodup_filesIn p)
    (List.nodup_cons.mpr ⟨hnew, ht.nodup_filesIn p⟩)]
  intro other
  rw [List.mem_cons, ht'.mem_filesIn_iff, ht.mem_filesIn_iff]
  simp only [h.find_eq_ok_iff, hfind, Except.ok.injEq, exists_and_left, exists_eq_left']
  by_cases hother : other = name
  · subst hother
    simp [h.present, hfound]
  · have hne : here.child other ≠ here.child name := fun heq => hother (Place.child_inj heq).2
    rw [h.others _ hne]
    simp [hother]

/-- Every other directory has the names that it had, -/
theorem Gains.namesIn_perm {p : Path} (hfind : t.find p ≠ .ok here) :
    (t'.namesIn p).Perm (t.namesIn p) := by
  rw [List.perm_ext_iff_of_nodup (ht'.nodup_namesIn p) (ht.nodup_namesIn p)]
  intro other
  simp only [mem_namesIn_iff, ht'.mem_places_iff, ht.mem_places_iff, h.find_eq_ok_iff]
  refine exists_congr fun here' => and_congr_right fun hhere' => ?_
  have hne : here'.child other ≠ here.child name := fun heq =>
    hfind (hhere'.trans (congrArg Except.ok (Place.child_inj heq).1))
  rw [h.others _ hne]

/-- and the files. -/
theorem Gains.filesIn_perm {p : Path} (hfind : t.find p ≠ .ok here) :
    (t'.filesIn p).Perm (t.filesIn p) := by
  rw [List.perm_ext_iff_of_nodup (ht'.nodup_filesIn p) (ht.nodup_filesIn p)]
  intro other
  simp only [ht'.mem_filesIn_iff, ht.mem_filesIn_iff, h.find_eq_ok_iff]
  refine exists_congr fun here' => exists_congr fun bytes => and_congr_right fun hhere' => ?_
  have hne : here'.child other ≠ here.child name := fun heq =>
    hfind (hhere'.trans (congrArg Except.ok (Place.child_inj heq).1))
  rw [h.others _ hne]

/-- A path is as long as it was, so what could be looked up still can be. -/
theorem Gains.listable {p : Path} (hlistable : t.Listable p)
    (hfound : t.find p = .ok here → t'.find (p.child name) ≠ .error .tooLong) :
    t'.Listable p := by
  have hold : ∀ other ∈ t.namesIn p, t'.find (p.child other) ≠ .error .tooLong := by
    intro other hother htooLong
    obtain hsame | ⟨-, hafter⟩ := h.find_eq_or (p.child other)
    · exact hlistable other hother (hsame ▸ htooLong)
    · rw [hafter] at htooLong
      cases htooLong
  intro other hother
  by_cases hfind : t.find p = .ok here
  · rw [(h.namesIn_perm_cons ht ht' hfind).mem_iff, List.mem_cons] at hother
    obtain rfl | hmem := hother
    · exact hfound hfind
    · exact hold other hmem
  · rw [(h.namesIn_perm ht ht' hfind).mem_iff] at hother
    exact hold other hother

end Listing

/-! ## Writing -/

/-- Two trees that differ by a file do so after the same is set elsewhere in both. -/
theorem Gains.set (h : t.Gains t' place data) {q : Place} (hq : q ≠ place)
    (hbase : isBase q = false) (e : Entry) : (t.set q e).Gains (t'.set q e) place data where
  absent := by rw [get?_set_of_ne (Ne.symm hq), h.absent]
  present := by rw [get?_set_of_ne (Ne.symm hq), h.present]
  others r hr := by
    by_cases hrq : r = q
    · subst hrq
      rw [get?_set_self hbase, get?_set_self hbase]
    · rw [get?_set_of_ne hrq, get?_set_of_ne hrq, h.others r hr]

/-- A directory that can be made without the file can be made with it. -/
theorem Gains.makeDirectory {made : FileTree} (h : t.Gains t' place data) {p : Path}
    (hmade : t.makeDirectory p = .ok made) (hplace : made.get? place ≠ some .directory) :
    ∃ made', t'.makeDirectory p = .ok made' ∧ made.Gains made' place data := by
  obtain ⟨q, hfind, ⟨hget, rfl⟩ | ⟨hget, rfl⟩⟩ := makeDirectory_eq_ok hmade
  · have hq : q ≠ place := fun heq => hplace (heq ▸ hget)
    refine ⟨t', ?_, h⟩
    rw [FileTree.makeDirectory, h.find_eq_ok_iff.mpr hfind]
    dsimp only
    rw [h.others q hq, hget]
  · have hbase : isBase q = false := by
      apply isBase_eq_false (t := t)
      simp [hget]
    have hq : q ≠ place := by
      rintro rfl
      exact hplace (get?_set_self hbase)
    refine ⟨t'.set q .directory, ?_, h.set hq hbase .directory⟩
    rw [FileTree.makeDirectory, h.find_eq_ok_iff.mpr hfind]
    dsimp only
    rw [h.others q hq, hget]

/-- A tree that grows keeps what stands in it. -/
theorem Grows.get?_of_some {way : Path → Prop} (h : t.Grows t' way) {q : Place} {e : Entry}
    (hget : t.get? q = some e) : t'.get? q = some e := by
  obtain hsame | ⟨hnone, -⟩ := h.get? q
  · rw [hsame, hget]
  · rw [hget] at hnone
    cases hnone

/-- A way past a file stays one, whatever directories are made. -/
theorem Grows.follow_notADirectory {way : Path → Prop} (h : t.Grows t' way) {here : Place}
    {names : List String} (hfollow : t.follow here names = .error .notADirectory) :
    t'.follow here names = .error .notADirectory := by
  induction names generalizing here with
  | nil => cases hfollow
  | cons name names ih =>
    rw [follow] at hfollow
    cases hget : t.get? here with
    | none => rw [hget] at hfollow; cases hfollow
    | some found =>
      rw [hget] at hfollow
      rw [follow, h.get?_of_some hget]
      cases found with
      | file bytes => rfl
      | directory =>
        dsimp only at hfollow ⊢
        split_ifs at hfollow ⊢
        · exact ih hfollow
        · cases hfollow
        · exact ih hfollow

/-- A way through a file stays one as the tree grows. -/
theorem Grows.find_notADirectory {way : Path → Prop} (h : t.Grows t' way) {p : Path}
    (hfind : t.find p = .error .notADirectory) : t'.find p = .error .notADirectory := by
  rw [FileTree.find] at hfind ⊢
  split_ifs at hfind ⊢
  · cases hfind
  · cases hfind
  · exact h.follow_notADirectory hfind

/-- The directories of a way that can be made without the file can be made with it. -/
theorem Gains.makeDirectories {made : FileTree} (h : t.Gains t' place data) {root : PathRoot}
    {names : List String} (hmade : t.makeDirectories root names = (.ok (), made))
    (hplace : made.get? place ≠ some .directory) :
    ∃ made', t'.makeDirectories root names = (.ok (), made') ∧ made.Gains made' place data := by
  induction names generalizing made with
  | nil =>
    obtain ⟨made', hmade', hgains⟩ := h.makeDirectory (addDirectory_eq_ok_iff.mp hmade) hplace
    exact ⟨made', addDirectory_eq_ok_iff.mpr hmade', hgains⟩
  | cons name names ih =>
    obtain ⟨-, hself⟩ | ⟨hmissing, ⟨fault, left, -, hrefused⟩ | ⟨above, habove, hself⟩⟩ :=
      makeDirectories_cons t root name names
    · obtain ⟨made', hmade', hgains⟩ :=
        h.makeDirectory (addDirectory_eq_ok_iff.mp (hself.symm.trans hmade)) hplace
      refine ⟨made', ?_, hgains⟩
      rw [FileTree.makeDirectories, addDirectory_eq_ok_iff.mpr hmade']
    · rw [hrefused] at hmade
      cases hmade
    · have hlast := addDirectory_eq_ok_iff.mp (hself.symm.trans hmade)
      have hgrows : above.Grows made fun _ => True := grows_of_makeDirectory hlast trivial
      obtain ⟨above', habove', hgains⟩ := ih habove fun hget => hplace (hgrows.get?_of_some hget)
      obtain ⟨made', hmade', hgains'⟩ := hgains.makeDirectory hlast hplace
      refine ⟨made', ?_, hgains'⟩
      -- the new file does not stand in the way, or it would still do so now
      have hmissing' : t'.find ⟨root, (name :: names).reverse⟩ = .error .notFound := by
        have hbefore := find_of_makeDirectory_notFound hmissing
        obtain hsame | ⟨-, hafter⟩ := h.find_eq_or ⟨root, (name :: names).reverse⟩
        · rw [hsame, hbefore]
        · have hgrows' := grows_makeDirectories t' root names
          rw [habove'] at hgrows'
          have hstill := hgrows'.find_notADirectory hafter
          obtain ⟨q, hq, -⟩ := makeDirectory_eq_ok hmade'
          rw [hstill] at hq
          cases hq
      have hrefused : t'.addDirectory ⟨root, (name :: names).reverse⟩ = (.error .notFound, t') := by
        rw [addDirectory, FileTree.makeDirectory, hmissing']
      rw [FileTree.makeDirectories, hrefused, habove']
      exact addDirectory_eq_ok_iff.mpr hmade'

/-- A directory that is made or found without the file is made or found with it. -/
theorem Gains.ensureDirectory {made : FileTree} (h : t.Gains t' place data) {p : Path}
    (hmade : t.ensureDirectory p = .ok made) (hplace : made.get? place ≠ some .directory) :
    ∃ made', t'.ensureDirectory p = .ok made' ∧ made.Gains made' place data := by
  obtain ⟨made', hmade', hgains⟩ := h.makeDirectories (ensureDirectory_eq_ok_iff.mp hmade) hplace
  exact ⟨made', ensureDirectory_eq_ok_iff.mpr hmade', hgains⟩

/-- A file that can be opened elsewhere without the one gained can be opened with it. -/
theorem Gains.openForWriting {opened : FileTree} (h : t.Gains t' place data) {p : Path} {q : Place}
    (hopened : t.openForWriting p = .ok (q, opened)) (hq : q ≠ place) :
    ∃ opened', t'.openForWriting p = .ok (q, opened') ∧ opened.Gains opened' place data := by
  obtain ⟨hfind, hget, rfl⟩ := openForWriting_eq_ok_iff.mp hopened
  refine ⟨t'.set q (.file []), ?_, h.set hq (isBase_eq_false hget) (.file [])⟩
  rw [openForWriting_eq_ok_iff]
  exact ⟨h.find_eq_ok_iff.mpr hfind, by rwa [h.others q hq], rfl⟩

end FileTree

end Ostinato

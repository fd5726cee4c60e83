import Ostinato.Proofs.Disk.Listing

/-!
# Trees in another order

A tree gives the entries of a directory in the order in which it has them, and another order of the
same entries makes another tree. It is the same to everything but that order: paths lead to the same
places, files read the same and descriptors are listed the same (`Reorders.list_eq`). Requests that
change both trees end alike, and leave trees that are again reorderings of one another
(`Reorders.makeWay`). What a request does to a tree is known from what it does to its
places, so the argument goes by places (`reorders_of_get?_eq`) and not by the lists of entries.
-/

namespace Ostinato

section Orders

variable {ι α β : Type} {f : ι → α → Option β} {elements : List α}

/-- An element goes into a list at the place that its value has among the values. -/
theorem exists_insert_filterMap {g : α → Option β} {a : α} {b : β} (hb : g a = some b)
    {before after : List β} (h : elements.filterMap g = before ++ after) :
    ∃ front back, elements = front ++ back ∧
      (front ++ a :: back).filterMap g = before ++ b :: after := by
  obtain ⟨front, back, rfl, hfront, hback⟩ := List.filterMap_eq_append_iff.mp h
  refine ⟨front, back, rfl, ?_⟩
  rw [List.filterMap_append, List.filterMap_cons_some hb, hfront, hback]

/-- Other functions do not notice an element that goes into a list. -/
theorem filterMap_insert_none {g : α → Option β} {a : α} (ha : g a = none) (front back : List α) :
    (front ++ a :: back).filterMap g = (front ++ back).filterMap g := by
  rw [List.filterMap_append, List.filterMap_cons_none ha, List.filterMap_append]

/-- Some partial functions are given, and no element has values of two of them. Every choice of
orders, one for the values of each function, comes from one order of the elements. -/
theorem exists_perm_filterMap (hf : ∀ a i j b, f i a = some b → j ≠ i → f j a = none)
    (elements : List α) {order : ι → List β}
    (h : ∀ i, (order i).Perm (elements.filterMap (f i))) :
    ∃ elements' : List α, elements'.Perm elements ∧ ∀ i, elements'.filterMap (f i) = order i := by
  induction elements generalizing order with
  | nil => exact ⟨[], .nil, fun i => (List.perm_nil.mp (h i)).symm⟩
  | cons a elements ih =>
    by_cases hvalue : ∃ i b, f i a = some b
    · obtain ⟨i, b, hb⟩ := hvalue
      have hi := h i
      rw [List.filterMap_cons_some hb] at hi
      obtain ⟨before, after, hsplit⟩ := List.append_of_mem (hi.mem_iff.mpr List.mem_cons_self)
      rw [hsplit] at hi
      classical
      -- without the new element the order that has its value is shorter by it
      have hshorter : ∀ j, (Function.update order i (before ++ after) j).Perm
          (elements.filterMap (f j)) := by
        intro j
        by_cases hj : j = i
        · subst hj
          rw [Function.update_self]
          exact (List.perm_cons b).mp (List.perm_middle.symm.trans hi)
        · rw [Function.update_of_ne hj, ← List.filterMap_cons_none (hf a i j b hb hj)]
          exact h j
      obtain ⟨elements', hperm, hvalues⟩ := ih hshorter
      obtain ⟨front, back, rfl, hinsert⟩ :=
        exists_insert_filterMap hb ((hvalues i).trans (Function.update_self ..))
      refine ⟨front ++ a :: back, List.perm_middle.trans (hperm.cons a), fun j => ?_⟩
      by_cases hj : j = i
      · rw [hj, hinsert, hsplit]
      · rw [filterMap_insert_none (hf a i j b hb hj), hvalues, Function.update_of_ne hj]
    · have hnone : ∀ i, f i a = none := fun i =>
        Option.eq_none_iff_forall_not_mem.mpr fun b hb => hvalue ⟨i, b, hb⟩
      have hrest : ∀ i, (order i).Perm (elements.filterMap (f i)) := by
        intro i
        rw [← List.filterMap_cons_none (hnone i)]
        exact h i
      obtain ⟨elements', hperm, hvalues⟩ := ih hrest
      exact ⟨a :: elements', hperm.cons a, fun i => by
        rw [List.filterMap_cons_none (hnone i), hvalues]⟩

end Orders

namespace FileTree

variable {t t' : FileTree}

/-- A well-formed tree, and one with the same entries in some order. -/
structure Reorders (t t' : FileTree) : Prop where
  wellFormed : t.WellFormed
  perm : t'.entries.Perm t.entries

/-- Well-formed trees with the same at all places have the same entries. -/
theorem reorders_of_get?_eq (h : t.WellFormed) (h' : t'.WellFormed)
    (hget : ∀ place, t'.get? place = t.get? place) : t.Reorders t' := by
  refine ⟨h, perm_of_lookup_eq h.nodup h'.nodup fun place => ?_⟩
  have hplace := hget place
  unfold get? at hplace
  split at hplace
  next hbase =>
    -- what is always there has no entry
    rw [h.lookup_eq_none hbase, h'.lookup_eq_none hbase]
  next => exact hplace

namespace Reorders

variable (h : t.Reorders t')

include h

/-- A reordered tree is well formed. -/
theorem wellFormed' : t'.WellFormed where
  nodup := (h.perm.map Prod.fst).nodup_iff.mpr h.wellFormed.nodup
  proper e he := h.wellFormed.proper e (h.perm.mem_iff.mp he)

/-- A reordered tree has the same in every place. -/
theorem get?_eq (place : Place) : t'.get? place = t.get? place := by
  unfold get?
  rw [lookup_eq_of_perm h.wellFormed.nodup h.perm]

/-- A reordered tree agrees on every place. -/
theorem agreesExcept : t.AgreesExcept t' fun _ => False := fun place => .inl (h.get?_eq place)

/-- Every way leads to the same place. -/
theorem find_eq (p : Path) : t'.find p = t.find p := h.agreesExcept.find_eq p

/-- Every file is read the same. -/
theorem read_eq (p : Path) : t'.read p = t.read p :=
  h.agreesExcept.read_eq fun _ _ _ hfalse => hfalse.elim

/-- A directory holds the same names, in another order. -/
theorem namesIn_perm (directory : Path) : (t'.namesIn directory).Perm (t.namesIn directory) :=
  h.agreesExcept.namesIn_perm h.wellFormed h.wellFormed' directory

/-- The entries of a directory can all be looked up in one tree if they can in the other. -/
theorem listable_iff (directory : Path) : t'.Listable directory ↔ t.Listable directory :=
  h.agreesExcept.listable_iff h.wellFormed h.wellFormed' directory

/-- A directory in which all can be looked up lists the same descriptors in the same order. -/
theorem list_eq {directory : Path} (hlistable : t.Listable directory) :
    Descriptor.list t' directory = Descriptor.list t directory :=
  Descriptor.list_eq_of_perm (h.agreesExcept.isDirectory_eq directory) hlistable
    ((h.listable_iff directory).mpr hlistable)
    (h.agreesExcept.filesIn_perm h.wellFormed h.wellFormed' directory)

/-! ## Changes -/

/-- An entry that is put at a place in both trees stands there in both. -/
theorem set {place : Place} (hplace : isBase place = false) (e : Entry) :
    (t.set place e).Reorders (t'.set place e) := by
  refine reorders_of_get?_eq (h.wellFormed.set hplace e) (h.wellFormed'.set hplace e) fun q => ?_
  by_cases hq : q = place
  · subst hq
    rw [get?_set_self hplace, get?_set_self hplace]
  · rw [get?_set_of_ne hq, get?_set_of_ne hq, h.get?_eq]

end Reorders

/-- Two requests for a changed tree that end alike: refused for one reason, or with trees in
different orders. -/
inductive EndsAlike : Except DiskFault FileTree → Except DiskFault FileTree → Prop
  | error (fault : DiskFault) : EndsAlike (.error fault) (.error fault)
  | ok {t t' : FileTree} (h : t.Reorders t') : EndsAlike (.ok t) (.ok t')

/-- Two requests that leave trees in different orders, whether or not they are refused. -/
inductive LeavesAlike : Except DiskFault Unit × FileTree → Except DiskFault Unit × FileTree → Prop
  | intro {t t' : FileTree} (outcome : Except DiskFault Unit) (h : t.Reorders t') :
      LeavesAlike (outcome, t) (outcome, t')

/-- To make a directory in reordered trees ends alike. -/
theorem Reorders.makeDirectory (h : t.Reorders t') (p : Path) :
    EndsAlike (t.makeDirectory p) (t'.makeDirectory p) := by
  unfold FileTree.makeDirectory
  rw [h.find_eq]
  cases t.find p with
  | error fault => exact .error fault
  | ok place =>
    dsimp only
    rw [h.get?_eq]
    cases hplace : t.get? place with
    | none =>
      have hnew : t.get? place ≠ some .directory := by simp [hplace]
      exact .ok (h.set (isBase_eq_false hnew) .directory)
    | some e =>
      cases e with
      | directory => exact .ok h
      | file data => exact .error .taken

/-- To add a directory to reordered trees leaves reordered trees. -/
theorem Reorders.addDirectory (h : t.Reorders t') (p : Path) :
    LeavesAlike (t.addDirectory p) (t'.addDirectory p) := by
  have hmade := h.makeDirectory p
  unfold FileTree.addDirectory
  generalize t.makeDirectory p = made at hmade
  generalize t'.makeDirectory p = made' at hmade
  cases hmade with
  | error fault => exact .intro _ h
  | ok hleft => exact .intro _ hleft

/-- To make the directories of a way in reordered trees leaves reordered trees. -/
theorem Reorders.makeDirectories (h : t.Reorders t') (root : PathRoot) (names : List String) :
    LeavesAlike (t.makeDirectories root names) (t'.makeDirectories root names) := by
  induction names with
  | nil => exact h.addDirectory _
  | cons name names ih =>
    rw [FileTree.makeDirectories, FileTree.makeDirectories]
    have hself := h.addDirectory ⟨root, (name :: names).reverse⟩
    generalize t.addDirectory _ = made at hself
    generalize t'.addDirectory _ = made' at hself
    obtain ⟨outcome, hmade⟩ := hself
    split
    next hmissing =>
      obtain rfl := congrArg Prod.fst hmissing
      -- those above are missing, and are made first in both trees
      generalize t.makeDirectories root names = above at ih
      generalize t'.makeDirectories root names = above' at ih
      obtain ⟨outcome, habove⟩ := ih
      cases outcome with
      | error fault => exact .intro _ habove
      | ok _ => exact habove.addDirectory _
    next hother =>
      split
      next hmissing =>
        obtain rfl := congrArg Prod.fst hmissing
        exact absurd rfl (hother _)
      next => exact .intro _ hmade

/-- Directories are made in both trees or in neither, and in both as far as they can be. -/
theorem Reorders.makeWay (h : t.Reorders t') (p : Path) :
    LeavesAlike (t.makeWay p) (t'.makeWay p) :=
  h.makeDirectories p.root p.parts.reverse

/-- A file is refused in both trees for one reason, or opened at one place in both. -/
theorem Reorders.openForWriting (h : t.Reorders t') (p : Path) :
    (∃ fault, t.openForWriting p = .error fault ∧ t'.openForWriting p = .error fault) ∨
      ∃ place opened opened', t.openForWriting p = .ok (place, opened) ∧
        t'.openForWriting p = .ok (place, opened') ∧ isBase place = false ∧
        opened.Reorders opened' := by
  cases hopened : t.openForWriting p with
  | error fault =>
    refine .inl ⟨fault, rfl, hopened ▸ ?_⟩
    unfold FileTree.openForWriting
    rw [h.find_eq]
    cases hfind : t.find p with
    | error cause => rfl
    | ok place =>
      dsimp only
      rw [h.get?_eq]
      -- a file that is not refused in the first tree is opened there
      have hdirectory : t.get? place = some .directory := by
        by_contra hplace
        rw [openForWriting_eq_ok_iff.mpr ⟨hfind, hplace, rfl⟩] at hopened
        cases hopened
      rw [hdirectory]
  | ok result =>
    obtain ⟨place, opened⟩ := result
    obtain ⟨hfind, hplace, rfl⟩ := openForWriting_eq_ok_iff.mp hopened
    have hopened' : t'.openForWriting p = .ok (place, t'.set place (.file [])) :=
      openForWriting_eq_ok_iff.mpr ⟨(h.find_eq p).trans hfind, by rwa [h.get?_eq], rfl⟩
    have hbase := isBase_eq_false hplace
    exact .inr ⟨place, _, _, rfl, hopened', hbase, h.set hbase _⟩

/-! ## Orders of directories -/

/-- The names in a directory are those of the entries right below its place. -/
theorem namesIn_eq {p : Path} {here : Place} (h : t.find p = .ok here) :
    t.namesIn p = t.entries.filterMap fun e => nameBelow? here e.1 := by
  unfold namesIn
  rw [h]

/-- An entry stands directly below one place only. -/
theorem nameBelow?_eq_none {place here here' : Place} {name : String}
    (h : nameBelow? here place = some name) (hne : here' ≠ here) :
    nameBelow? here' place = none := by
  refine Option.eq_none_iff_forall_not_mem.mpr fun name' h' => hne ?_
  have hplace : place = here.child name := nameBelow?_eq_some_iff.mp h
  have hplace' : place = here'.child name' := nameBelow?_eq_some_iff.mp h'
  exact (Place.child_inj (hplace'.symm.trans hplace)).1

/-- In whatever orders the directories may give their entries, some reordering gives them so. -/
theorem exists_reorders (ht : t.WellFormed) {order : Place → List String}
    (h : ∀ p here, t.find p = .ok here → (order here).Perm (t.namesIn p)) :
    ∃ t', t.Reorders t' ∧ ∀ p here, t.find p = .ok here → t'.namesIn p = order here := by
  classical
  -- places to which no path leads keep their order
  have horders : ∀ here, (if ∃ p, t.find p = .ok here then order here
      else t.entries.filterMap fun e => nameBelow? here e.1).Perm
        (t.entries.filterMap fun e => nameBelow? here e.1) := by
    intro here
    split
    next hfind =>
      obtain ⟨p, hp⟩ := hfind
      rw [← namesIn_eq hp]
      exact h p here hp
    next => exact .refl _
  have hunique : ∀ (e : Place × Entry) (here here' : Place) (name : String),
      nameBelow? here e.1 = some name → here' ≠ here → nameBelow? here' e.1 = none :=
    fun _ _ _ _ => nameBelow?_eq_none
  obtain ⟨entries, hperm, horder⟩ := exists_perm_filterMap hunique t.entries horders
  have hreorders : t.Reorders ⟨entries⟩ := ⟨ht, hperm⟩
  refine ⟨⟨entries⟩, hreorders, fun p here hp => ?_⟩
  rw [namesIn_eq ((hreorders.find_eq p).trans hp), horder, if_pos ⟨p, hp⟩]

end FileTree

end Ostinato

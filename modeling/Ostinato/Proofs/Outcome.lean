/-!
# Outcomes

What is known of a computation that can fail when it has succeeded: each of its steps has.
-/

namespace Ostinato

variable {ε α β : Type}

/-- A changed outcome is a success just if the outcome is, and the result is changed. -/
theorem map_eq_ok_iff {f : α → β} {x : Except ε α} {b : β} :
    x.map f = .ok b ↔ ∃ a, x = .ok a ∧ f a = b := by
  cases x <;> simp [Except.map]

/-- A changed outcome is a fault just if the outcome is that fault. -/
theorem map_eq_error_iff {f : α → β} {x : Except ε α} {e : ε} :
    x.map f = .error e ↔ x = .error e := by
  cases x <;> simp [Except.map]

/-- An outcome with its fault changed is a success just if the outcome is that success. -/
theorem mapError_eq_ok_iff {δ : Type} {f : ε → δ} {x : Except ε α} {a : α} :
    x.mapError f = .ok a ↔ x = .ok a := by
  cases x with
  | error e => constructor <;> exact fun h => by cases h
  | ok a' =>
    show (Except.ok a' : Except δ α) = .ok a ↔ _
    rw [Except.ok.injEq, Except.ok.injEq]

/-- An outcome with its fault changed is a fault just if the outcome is, and the fault is
changed. -/
theorem mapError_eq_error_iff {δ : Type} {f : ε → δ} {x : Except ε α} {e : δ} :
    x.mapError f = .error e ↔ ∃ e', x = .error e' ∧ e = f e' := by
  cases x with
  | error e' =>
    show (Except.error (f e') : Except δ α) = .error e ↔ _
    simp [eq_comm]
  | ok a =>
    constructor
    · exact fun h => by cases h
    · rintro ⟨e', h, -⟩
      cases h

/-- A sequence succeeds just if its first part does and then its second. -/
theorem bind_eq_ok_iff {x : Except ε α} {f : α → Except ε β} {b : β} :
    x.bind f = .ok b ↔ ∃ a, x = .ok a ∧ f a = .ok b := by
  cases x <;> simp [Except.bind]

/-- An outcome with a result is a success. -/
theorem eq_ok_of_toOption {x : Except ε α} {a : α} (h : x.toOption = some a) : x = .ok a := by
  cases x with
  | error e => cases h
  | ok a' =>
    cases h
    rfl

/-- The fault of an outcome. -/
def faultOf? : Except ε α → Option ε
  | .error e => some e
  | .ok _ => none

/-- An outcome with a fault is that fault. -/
theorem eq_error_of_faultOf? {x : Except ε α} {e : ε} (h : faultOf? x = some e) : x = .error e := by
  cases x with
  | error e' =>
    cases h
    rfl
  | ok a => cases h

/-! ## Elements one after the other -/

variable {f : α → Except ε β}

/-- A list fails with its first element. -/
theorem mapM_cons_error {x : α} {e : ε} (xs : List α) (h : f x = .error e) :
    (x :: xs).mapM f = .error e := by
  rw [List.mapM_cons, h]
  rfl

/-- A list goes on behind an element that succeeds. -/
theorem mapM_cons_ok {x : α} {y : β} (xs : List α) (h : f x = .ok y) :
    (x :: xs).mapM f = (xs.mapM f).map (y :: ·) := by
  rw [List.mapM_cons, h]
  cases xs.mapM f <;> rfl

/-- A list succeeds if its first element does and the others do. -/
theorem mapM_cons_eq_ok_iff {x : α} {xs : List α} {ys : List β} :
    (x :: xs).mapM f = .ok ys ↔ ∃ y rest, f x = .ok y ∧ xs.mapM f = .ok rest ∧ ys = y :: rest := by
  cases hx : f x with
  | error e => simp [mapM_cons_error xs hx]
  | ok y =>
    rw [mapM_cons_ok xs hx, map_eq_ok_iff]
    simp [eq_comm]

/-- Each result of a map that does not fail is that of some element. -/
theorem exists_of_mem_mapM {xs : List α} {ys : List β} (h : xs.mapM f = .ok ys) {y : β}
    (hy : y ∈ ys) : ∃ x ∈ xs, f x = .ok y := by
  induction xs generalizing ys with
  | nil =>
    cases h
    cases hy
  | cons x xs ih =>
    obtain ⟨first, rest, hx, hxs, rfl⟩ := mapM_cons_eq_ok_iff.mp h
    rcases List.mem_cons.mp hy with rfl | hrest
    · exact ⟨x, List.mem_cons_self, hx⟩
    · obtain ⟨x', hx', hf⟩ := ih hxs hrest
      exact ⟨x', List.mem_cons_of_mem x hx', hf⟩

/-- Where a map does not fail, no element does. -/
theorem exists_ok_of_mapM {xs : List α} {ys : List β} (h : xs.mapM f = .ok ys) {x : α}
    (hx : x ∈ xs) : ∃ y, f x = .ok y := by
  induction xs generalizing ys with
  | nil => cases hx
  | cons x' xs ih =>
    obtain ⟨first, rest, hx', hxs, -⟩ := mapM_cons_eq_ok_iff.mp h
    rcases List.mem_cons.mp hx with rfl | hmem
    · exact ⟨first, hx'⟩
    · exact ih hxs hmem

/-- A map that does not fail is the map of any function that gives the same results. -/
theorem eq_map_of_mapM {g : α → β} (hg : ∀ x y, f x = .ok y → g x = y) {xs : List α}
    {ys : List β} (h : xs.mapM f = .ok ys) : ys = xs.map g := by
  induction xs generalizing ys with
  | nil =>
    cases h
    rfl
  | cons x xs ih =>
    obtain ⟨y, rest, hx, hxs, rfl⟩ := mapM_cons_eq_ok_iff.mp h
    rw [List.map_cons, hg x y hx, ih hxs]

/-- A map fails as its first element that fails. -/
theorem mapM_eq_error_iff {xs : List α} {e : ε} :
    xs.mapM f = .error e ↔
      ∃ before x after, xs = before ++ x :: after ∧ (∀ y ∈ before, ∃ z, f y = .ok z) ∧
        f x = .error e := by
  induction xs with
  | nil => simp [pure, Except.pure]
  | cons x xs ih =>
    cases hx : f x with
    | error e' =>
      rw [mapM_cons_error xs hx]
      constructor
      · rintro ⟨⟩
        exact ⟨[], x, xs, rfl, by simp, hx⟩
      · rintro ⟨before, x', after, hcons, hbefore, hx'⟩
        obtain ⟨rfl, hfirst⟩ | ⟨rest, rfl, -⟩ := List.cons_eq_append_iff.mp hcons
        · obtain ⟨rfl, -⟩ := List.cons.inj hfirst
          rw [hx] at hx'
          cases hx'
          rfl
        · obtain ⟨z, hz⟩ := hbefore x List.mem_cons_self
          rw [hx] at hz
          cases hz
    | ok y =>
      rw [mapM_cons_ok xs hx, map_eq_error_iff, ih]
      constructor
      · rintro ⟨before, x', after, rfl, hbefore, hx'⟩
        exact ⟨x :: before, x', after, rfl, List.forall_mem_cons.mpr ⟨⟨y, hx⟩, hbefore⟩, hx'⟩
      · rintro ⟨before, x', after, hcons, hbefore, hx'⟩
        obtain ⟨rfl, hfirst⟩ | ⟨rest, rfl, hrest⟩ := List.cons_eq_append_iff.mp hcons
        · obtain ⟨rfl, -⟩ := List.cons.inj hfirst
          rw [hx] at hx'
          cases hx'
        · exact ⟨rest, x', after, hrest, (List.forall_mem_cons.mp hbefore).2, hx'⟩

/-- What makes a map fail is some element. -/
theorem exists_of_mapM_error {xs : List α} {e : ε} (h : xs.mapM f = .error e) :
    ∃ x ∈ xs, f x = .error e := by
  obtain ⟨before, x, after, rfl, -, hx⟩ := mapM_eq_error_iff.mp h
  exact ⟨x, by simp, hx⟩

/-- Where elements fail with one fault only, and one of them does, the map does. -/
theorem mapM_eq_error_of_mem {xs : List α} {e : ε} (hall : ∀ x ∈ xs, ∀ e', f x = .error e' → e' = e)
    (hsome : ∃ x ∈ xs, f x = .error e) : xs.mapM f = .error e := by
  cases hmapM : xs.mapM f with
  | ok ys =>
    obtain ⟨x, hx, hfault⟩ := hsome
    obtain ⟨y, hy⟩ := exists_ok_of_mapM hmapM hx
    rw [hy] at hfault
    cases hfault
  | error e' =>
    obtain ⟨x, hx, hfault⟩ := exists_of_mapM_error hmapM
    rw [hall x hx e' hfault]

/-- Two lists succeed together if each of them does. -/
theorem mapM_append_eq_ok_iff {xs xs' : List α} {ys : List β} :
    (xs ++ xs').mapM f = .ok ys ↔
      ∃ zs zs', xs.mapM f = .ok zs ∧ xs'.mapM f = .ok zs' ∧ ys = zs ++ zs' := by
  rw [List.mapM_append]
  cases xs.mapM f with
  | error e => simp [bind, Except.bind]
  | ok zs =>
    cases xs'.mapM f with
    | error e => simp [bind, Except.bind]
    | ok zs' => simp [bind, Except.bind, pure, Except.pure, eq_comm]

/-- A list of one element succeeds if the element does. -/
theorem mapM_singleton_eq_ok_iff {x : α} {ys : List β} :
    [x].mapM f = .ok ys ↔ ∃ y, f x = .ok y ∧ ys = [y] := by
  cases hx : f x with
  | error e => simp [mapM_cons_error [] hx]
  | ok y => simp [mapM_cons_ok [] hx, Except.map, pure, Except.pure, eq_comm]

/-- Where a map fails at no element, it does not fail. -/
theorem exists_mapM_iff {xs : List α} :
    (∃ ys, xs.mapM f = .ok ys) ↔ ∀ x ∈ xs, ∃ y, f x = .ok y := by
  refine ⟨fun ⟨ys, hys⟩ x hx => exists_ok_of_mapM hys hx, fun h => ?_⟩
  cases hmapM : xs.mapM f with
  | ok ys => exact ⟨ys, rfl⟩
  | error e =>
    obtain ⟨x, hx, hfault⟩ := exists_of_mapM_error hmapM
    obtain ⟨y, hy⟩ := h x hx
    rw [hy] at hfault
    cases hfault

/-- As many elements come out as go in. -/
theorem length_of_mapM {xs : List α} {ys : List β} (h : xs.mapM f = .ok ys) :
    ys.length = xs.length := by
  induction xs generalizing ys with
  | nil =>
    cases h
    rfl
  | cons x xs ih =>
    obtain ⟨y, rest, -, hxs, rfl⟩ := mapM_cons_eq_ok_iff.mp h
    rw [List.length_cons, List.length_cons, ih hxs]

/-! ## Elements folded one after the other -/

variable {g : β → α → Except ε β}

/-- A fold succeeds if its first step does and the fold over the others does. -/
theorem foldlM_cons_eq_ok_iff {b b' : β} {x : α} {xs : List α} :
    (x :: xs).foldlM g b = .ok b' ↔ ∃ next, g b x = .ok next ∧ xs.foldlM g next = .ok b' := by
  rw [List.foldlM_cons]
  exact bind_eq_ok_iff

/-- A fold fails at its first element that fails on what the elements before it give. -/
theorem foldlM_eq_error_iff {b : β} {xs : List α} {e : ε} :
    xs.foldlM g b = .error e ↔
      ∃ before x after next, xs = before ++ x :: after ∧ before.foldlM g b = .ok next ∧
        g next x = .error e := by
  induction xs generalizing b with
  | nil => simp [pure, Except.pure]
  | cons x xs ih =>
    rw [List.foldlM_cons]
    cases hx : g b x with
    | error e' =>
      constructor
      · rintro ⟨⟩
        exact ⟨[], x, xs, b, rfl, rfl, hx⟩
      · rintro ⟨before, x', after, next, hcons, hbefore, hx'⟩
        obtain ⟨rfl, hfirst⟩ | ⟨rest, rfl, -⟩ := List.cons_eq_append_iff.mp hcons
        · obtain ⟨rfl, -⟩ := List.cons.inj hfirst
          cases hbefore
          exact hx.symm.trans hx'
        · obtain ⟨next', hnext', -⟩ := foldlM_cons_eq_ok_iff.mp hbefore
          rw [hx] at hnext'
          cases hnext'
    | ok first =>
      refine ih.trans ⟨?_, ?_⟩
      · rintro ⟨before, x', after, next, rfl, hbefore, hx'⟩
        exact ⟨x :: before, x', after, next, rfl, foldlM_cons_eq_ok_iff.mpr ⟨first, hx, hbefore⟩,
          hx'⟩
      · rintro ⟨before, x', after, next, hcons, hbefore, hx'⟩
        obtain ⟨rfl, hfirst⟩ | ⟨rest, rfl, hrest⟩ := List.cons_eq_append_iff.mp hcons
        · obtain ⟨rfl, -⟩ := List.cons.inj hfirst
          cases hbefore
          rw [hx] at hx'
          cases hx'
        · obtain ⟨next', hnext', hrest'⟩ := foldlM_cons_eq_ok_iff.mp hbefore
          rw [hx] at hnext'
          cases hnext'
          exact ⟨rest, x', after, next, hrest, hrest', hx'⟩

/-- Faults can be renamed at each element or at the end. -/
theorem foldlM_mapError {δ : Type} (rename : ε → δ) (b : β) (xs : List α) :
    xs.foldlM (fun b x => (g b x).mapError rename) b = (xs.foldlM g b).mapError rename := by
  induction xs generalizing b with
  | nil => rfl
  | cons x xs ih =>
    rw [List.foldlM_cons, List.foldlM_cons]
    cases g b x with
    | error e => rfl
    | ok next => exact ih next

end Ostinato

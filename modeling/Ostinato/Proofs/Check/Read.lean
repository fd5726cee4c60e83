import Mathlib.Data.List.Forall2
import Ostinato.Check.Read
import Ostinato.Proofs.Outcome

/-!
# Checks that pass

What a value that passes a check has passed: each combination of checks passes exactly if its parts
do, and a reading with bounds gives nothing outside them.
-/

namespace Ostinato

variable {α β γ : Type}

namespace Checked

/-- Two checks one after the other pass if the second passes the result of the first. -/
theorem andThen_eq_ok_iff {f : α → Checked β} {x : Checked α} {b : β} :
    andThen f x = .ok b ↔ ∃ a, x = .ok a ∧ f a = .ok b := by
  cases x <;> simp [andThen]

/-- A check passes under a step if it passes. -/
theorem under_eq_ok_iff {step : Step} {x : Checked α} {a : α} :
    under step x = .ok a ↔ x = .ok a := by
  cases x <;> simp [under]

/-- Two checks pass together if each of them passes. -/
theorem both_eq_ok_iff {f : α → β → γ} {x : Checked α} {y : Checked β} {c : γ} :
    both f x y = .ok c ↔ ∃ a b, x = .ok a ∧ y = .ok b ∧ f a b = c := by
  cases x <;> cases y <;> simp [both]

end Checked

namespace Value

open Checked (refuse under both)

/-! ## Numbers -/

/-- An integer passes the check of a lower bound if it is no less. -/
theorem atLeast_eq_ok_iff {least i j : Int} : atLeast least i = .ok j ↔ least ≤ i ∧ i = j := by
  rw [atLeast]
  split
  next hlt => exact ⟨fun h => (nomatch h), fun h => absurd h.1 (Int.not_le.mpr hlt)⟩
  next hge => exact ⟨fun h => ⟨Int.not_lt.mp hge, Except.ok.inj h⟩, fun h => congrArg _ h.2⟩

/-- An integer that is read between bounds lies between them. -/
theorem bounds_of_asIntegerIn {least greatest : Int} {v : Value} {i : Int}
    (h : asIntegerIn least greatest v = .ok i) : least ≤ i ∧ i ≤ greatest := by
  obtain ⟨j, hj, hleast⟩ := Checked.andThen_eq_ok_iff.mp h
  obtain ⟨k, -, hgreatest⟩ := Checked.andThen_eq_ok_iff.mp hj
  rw [atLeast] at hleast
  rw [atMost] at hgreatest
  split at hleast
  · cases hleast
  · split at hgreatest
    · cases hgreatest
    · cases hleast
      cases hgreatest
      omega

/-- An integer passes the check of its bounds if it lies between them. -/
theorem asIntegerIn_int_eq_ok_iff {least greatest i j : Int} :
    asIntegerIn least greatest (.int i) = .ok j ↔ (least ≤ i ∧ i ≤ greatest) ∧ i = j := by
  constructor
  · intro h
    obtain ⟨_, hk, hleast⟩ := Checked.andThen_eq_ok_iff.mp h
    obtain ⟨_, ⟨⟩, hgreatest⟩ := Checked.andThen_eq_ok_iff.mp hk
    rw [atMost] at hgreatest
    split at hgreatest
    · cases hgreatest
    · cases hgreatest
      obtain ⟨hle, rfl⟩ := atLeast_eq_ok_iff.mp hleast
      exact ⟨⟨hle, by omega⟩, rfl⟩
  · rintro ⟨⟨hleast, hgreatest⟩, rfl⟩
    rw [asIntegerIn, asInteger, Checked.andThen_eq_ok_iff]
    exact ⟨i, if_neg (Int.not_lt.mpr hgreatest), atLeast_eq_ok_iff.mpr ⟨hleast, rfl⟩⟩

/-! ## Fields -/

/-- A field that is there has been read from some value. -/
theorem exists_of_asOptional {read : Value → Checked α} {v : Value} {a : α}
    (h : asOptional read v = .ok (some a)) : read v = .ok a := by
  have hread : ∀ w, (read w).map some = .ok (some a) → read w = .ok a := by
    intro w hw
    obtain ⟨a', ha', heq⟩ := map_eq_ok_iff.mp hw
    cases heq
    exact ha'
  cases v with
  | null => cases h
  | _ => exact hread _ h

/-- A field that may be left out has its default or has been read from some value. -/
theorem exists_of_optional {read : Value → Checked α} {default a : α}
    {entries : List (Value × Value)} {names : List String}
    (h : Value.optional read default entries names = .ok a) :
    a = default ∨ ∃ v, read v = .ok a := by
  induction names with
  | nil =>
    cases h
    exact Or.inl rfl
  | cons name names ih =>
    rw [Value.optional] at h
    split at h
    next v hv => exact Or.inr ⟨v, Checked.under_eq_ok_iff.mp h⟩
    next => exact ih h

/-- A field under one name that has to be there has been read from what is there. -/
theorem required_eq_ok_iff {read : Value → Checked α} {entries : List (Value × Value)}
    {label name : String} {a : α} :
    required read entries label [name] = .ok a ↔
      ∃ v, lookup name entries = some v ∧ read v = .ok a := by
  rw [required]
  cases lookup name entries with
  | none => simp [required, under, refuse]
  | some v => simp [Checked.under_eq_ok_iff]

/-- A field under one name that may be left out has its default exactly if it is not there. -/
theorem optional_eq_ok_iff {read : Value → Checked α} {default a : α}
    {entries : List (Value × Value)} {name : String} :
    Value.optional read default entries [name] = .ok a ↔
      (lookup name entries = none ∧ a = default) ∨
        ∃ v, lookup name entries = some v ∧ read v = .ok a := by
  rw [Value.optional]
  cases lookup name entries with
  | none => simp [Value.optional, eq_comm]
  | some v => simp [Checked.under_eq_ok_iff]

/-- Elements pass exactly if each of them does, in order. -/
theorem elementsFrom_eq_ok_iff {read : Value → Checked α} {n : Nat} {items : List Value}
    {as : List α} :
    elementsFrom read n items = .ok as ↔ List.Forall₂ (fun v a => read v = .ok a) items as := by
  induction items generalizing n as with
  | nil =>
    rw [elementsFrom]
    constructor
    · rintro ⟨⟩
      exact .nil
    · rintro ⟨⟩
      rfl
  | cons v items ih =>
    rw [elementsFrom, Checked.both_eq_ok_iff]
    constructor
    · rintro ⟨a, rest, ha, hrest, rfl⟩
      exact .cons (Checked.under_eq_ok_iff.mp ha) (ih.mp hrest)
    · rintro (_ | ⟨ha, hrest⟩)
      exact ⟨_, _, Checked.under_eq_ok_iff.mpr ha, ih.mpr hrest, rfl⟩

/-! ## Mappings -/

section Entries

variable {κ : Type} {same : κ → κ → Bool}

/-- No value comes into a mapping but by an entry. -/
theorem exists_of_mem_insertEntry {key : κ} {value : α} {entries : List (κ × α)} {e : κ × α}
    (h : e ∈ insertEntry same key value entries) : e.2 = value ∨ ∃ e' ∈ entries, e.2 = e'.2 := by
  induction entries with
  | nil =>
    rw [List.mem_singleton.mp h]
    exact Or.inl rfl
  | cons entry entries ih =>
    rw [insertEntry] at h
    split at h
    · rcases List.mem_cons.mp h with rfl | h
      · exact Or.inl rfl
      · exact Or.inr ⟨e, List.mem_cons_of_mem entry h, rfl⟩
    · rcases List.mem_cons.mp h with rfl | h
      · exact Or.inr ⟨_, List.mem_cons_self, rfl⟩
      · obtain hvalue | ⟨e', he', heq⟩ := ih h
        · exact Or.inl hvalue
        · exact Or.inr ⟨e', List.mem_cons_of_mem entry he', heq⟩

/-- A value among the distinct entries is one of an entry. -/
theorem exists_of_mem_distinctEntries {entries : List (κ × α)} {e : κ × α}
    (h : e ∈ distinctEntries same entries) : ∃ e' ∈ entries, e.2 = e'.2 := by
  -- every entry of the mapping comes from those that are in it or from those still to be put in
  have hfold : ∀ {rest entered : List (κ × α)} {e : κ × α},
      e ∈ rest.foldl (fun d e => insertEntry same e.1 e.2 d) entered →
        ∃ e' ∈ entered ++ rest, e.2 = e'.2 := by
    intro rest
    induction rest with
    | nil =>
      intro entered e he
      exact ⟨e, by simpa using he, rfl⟩
    | cons next rest ih =>
      intro entered e he
      obtain ⟨e', he', heq⟩ := ih he
      rcases List.mem_append.mp he' with hentered | hrest
      · obtain hvalue | ⟨e'', he'', heq'⟩ := exists_of_mem_insertEntry hentered
        · exact ⟨next, by simp, heq.trans hvalue⟩
        · exact ⟨e'', List.mem_append_left _ he'', heq.trans heq'⟩
      · exact ⟨e', List.mem_append_right _ (List.mem_cons_of_mem next hrest), heq⟩
  simpa using hfold h

end Entries

/-- A value in a table that is read has been read from some value. -/
theorem exists_of_mem_textEntries {read : Value → Checked α} {entries : List (Value × Value)}
    {table : List (Text × α)} (h : textEntries read entries = .ok table) {e : Text × α}
    (he : e ∈ table) : ∃ v, read v = .ok e.2 := by
  induction entries generalizing table with
  | nil =>
    cases h
    cases he
  | cons entry entries ih =>
    obtain ⟨k, v⟩ := entry
    obtain ⟨first, rest, hfirst, hrest, rfl⟩ := Checked.both_eq_ok_iff.mp h
    obtain ⟨key, value, -, hvalue, rfl⟩ := Checked.both_eq_ok_iff.mp hfirst
    rcases List.mem_cons.mp he with rfl | he
    · exact ⟨v, Checked.under_eq_ok_iff.mp hvalue⟩
    · exact ih hrest he

/-- Every value of a mapping has been read. -/
theorem exists_of_mem_asTextDict {pool : Pool} {read : Value → Checked α} {v : Value}
    {table : List (Text × α)} (h : asTextDict pool read v = .ok table) {e : Text × α}
    (he : e ∈ table) : ∃ w, read w = .ok e.2 := by
  rw [asTextDict] at h
  split at h
  next entries _ =>
    obtain ⟨all, hall, rfl⟩ := map_eq_ok_iff.mp h
    obtain ⟨e', he', heq⟩ := exists_of_mem_distinctEntries he
    rw [heq]
    exact exists_of_mem_textEntries hall he'
  next => cases h

end Value

end Ostinato

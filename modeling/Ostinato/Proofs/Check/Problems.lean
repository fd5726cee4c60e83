import Mathlib.Data.List.Basic
import Ostinato.Check.Read

/-!
# All that is wrong

A check passes or gives a list of issues. `Checked.problems` is that list, empty for a check that
passes, and it is additive: two checks that are both made have the problems of the first and then
those of the second, and the elements of a list have theirs in turn. A check that refuses without a
reason could not be told from one that passes by its problems; `Checked.Reasoned` excludes that.
-/

namespace Ostinato

/-- An issue of a part that lies one step down. -/
def Issue.under (step : Step) (i : Issue) : Issue := ⟨step :: i.loc, i.complaint⟩

namespace Checked

/-- All that is wrong with a value. -/
def problems {α : Type} : Checked α → List Issue
  | .ok _ => []
  | .error issues => issues

/-- A check that does not refuse without a reason. -/
def Reasoned {α : Type} (x : Checked α) : Prop := x ≠ .error []

variable {α β γ : Type} {x : Checked α} {y : Checked β}

/-! ## Problems -/

/-- Problems under a step are found by that step. -/
@[simp]
theorem problems_under (step : Step) (x : Checked α) :
    (under step x).problems = x.problems.map (Issue.under step) := by
  cases x <;> rfl

/-- Two checks find the problems of the first and then those of the second. -/
@[simp]
theorem problems_both (f : α → β → γ) (x : Checked α) (y : Checked β) :
    (both f x y).problems = x.problems ++ y.problems := by
  cases x <;> cases y <;> simp [both, problems]

/-- A change of the result changes no problems. -/
@[simp]
theorem problems_map (f : α → β) (x : Checked α) :
    problems (Except.map f x) = x.problems := by
  cases x <;> rfl

/-! ## Reasons -/

/-- A success needs no reason. -/
theorem reasoned_ok (a : α) : Reasoned (.ok a) := nofun

/-- To refuse is to give a reason. -/
theorem reasoned_refuse (c : Complaint) : Reasoned (refuse c : Checked α) := nofun

/-- A check with a reason for every refusal passes exactly if there is nothing wrong. -/
theorem Reasoned.exists_ok_iff (h : x.Reasoned) : (∃ a, x = .ok a) ↔ x.problems = [] := by
  cases x with
  | ok a => simp [problems]
  | error issues =>
    constructor
    · rintro ⟨a, ⟨⟩⟩
    · rintro rfl
      exact absurd rfl h

/-- A reasoned check fails for some issue. -/
theorem Reasoned.ne_nil (h : x.Reasoned) {issues : List Issue} (hx : x = .error issues) :
    issues ≠ [] := by
  rintro rfl
  exact h hx

/-- A reasoned check is reasoned under any step. -/
theorem Reasoned.under (h : x.Reasoned) (step : Step) : (under step x).Reasoned := by
  cases x with
  | ok a => exact reasoned_ok a
  | error issues => exact fun hx => h.ne_nil rfl (List.map_eq_nil_iff.mp (Except.error.inj hx))

/-- Two reasoned checks are reasoned together. -/
theorem Reasoned.both (hx : x.Reasoned) (hy : y.Reasoned) (f : α → β → γ) :
    (both f x y).Reasoned := by
  cases x with
  | ok a =>
    cases y with
    | ok b => exact reasoned_ok (f a b)
    | error more => exact fun h => hy.ne_nil rfl (Except.error.inj h)
  | error issues =>
    cases y with
    | ok b => exact fun h => hx.ne_nil rfl (Except.error.inj h)
    | error more =>
      exact fun h => hx.ne_nil rfl (List.append_eq_nil_iff.mp (Except.error.inj h)).1

/-- A reasoned check is reasoned whatever becomes of its result. -/
theorem Reasoned.map (h : x.Reasoned) (f : α → β) : Reasoned (Except.map f x) := by
  cases x with
  | ok a => exact reasoned_ok (f a)
  | error issues => exact fun hx => h.ne_nil rfl (Except.error.inj hx)

/-- Two reasoned checks are reasoned one after the other. -/
theorem Reasoned.andThen (h : x.Reasoned) {f : α → Checked β} (hf : ∀ a, (f a).Reasoned) :
    (andThen f x).Reasoned := by
  cases x with
  | ok a => exact hf a
  | error issues => exact fun hx => h.ne_nil rfl (Except.error.inj hx)

end Checked

namespace Value

open Checked

variable {α : Type} {read : Value → Checked α} {pool : Pool}

/-! ## Readings -/

/-- The check of a text is reasoned. -/
theorem reasoned_asText (v : Value) : v.asText.Reasoned := by
  cases v with
  | text t => exact reasoned_ok t
  | bytes data =>
    rw [asText]
    cases Text.decodeUtf8 data with
    | none => exact reasoned_refuse _
    | some cs => exact reasoned_ok _
  | _ => exact reasoned_refuse _

/-- The check of a value that may be null is reasoned if that of the value is. -/
theorem reasoned_asOptional (hread : ∀ v, (read v).Reasoned) (v : Value) :
    (asOptional read v).Reasoned := by
  cases v with
  | null => exact reasoned_ok none
  | _ => exact (hread _).map some

/-- The check of elements is reasoned if that of each is. -/
theorem reasoned_elementsFrom (hread : ∀ v, (read v).Reasoned) (n : Nat) (items : List Value) :
    (elementsFrom read n items).Reasoned := by
  induction items generalizing n with
  | nil => exact reasoned_ok []
  | cons v vs ih => exact ((hread v).under _).both (ih (n + 1)) _

/-- The check of a list is reasoned if that of each element is. -/
theorem reasoned_asList (hread : ∀ v, (read v).Reasoned) (v : Value) :
    (asList pool read v).Reasoned := by
  rw [asList]
  split
  · exact reasoned_elementsFrom hread 0 _
  · exact reasoned_elementsFrom hread 0 _
  · exact reasoned_elementsFrom hread 0 _
  · exact reasoned_refuse _

/-- The check of a record is reasoned. -/
theorem reasoned_asRecord (name : String) (v : Value) : (asRecord pool name v).Reasoned := by
  rw [asRecord]
  split
  · exact reasoned_ok _
  · exact reasoned_refuse _

/-- The check of a required entry is reasoned if that of its value is. -/
theorem reasoned_required (hread : ∀ v, (read v).Reasoned) (entries : List (Value × Value))
    (name : String) (names : List String) : (required read entries name names).Reasoned := by
  induction names with
  | nil => exact (reasoned_refuse _).under _
  | cons n names ih =>
    rw [required]
    split
    · exact (hread _).under _
    · exact ih

/-- The check of an entry with a default is reasoned if that of its value is. -/
theorem reasoned_optional (hread : ∀ v, (read v).Reasoned) (default : α)
    (entries : List (Value × Value)) (names : List String) :
    (Value.optional read default entries names).Reasoned := by
  induction names with
  | nil => exact reasoned_ok default
  | cons n names ih =>
    rw [Value.optional]
    split
    · exact (hread _).under _
    · exact ih

/-- The problems of elements, each found under its index. -/
theorem problems_elementsFrom (n : Nat) (items : List Value) :
    (elementsFrom read n items).problems
      = (items.zipIdx n).flatMap fun p =>
          (read p.1).problems.map (Issue.under (.index p.2)) := by
  induction items generalizing n with
  | nil => rfl
  | cons v vs ih =>
    rw [elementsFrom, problems_both, problems_under, ih, List.zipIdx_cons, List.flatMap_cons]

end Value

end Ostinato

import Mathlib.Data.List.Induction
import Mathlib.Data.List.Nodup
import Ostinato.Instrument.Ensemble

/-!
# What an ensemble holds

An ensemble keeps an index of types that is filled as instruments come in. `Ensemble.Holds` says
what the index means, in terms of the list of instruments alone: the first of a type plays. Adding
an instrument keeps this, and fails exactly if the name is taken. The main result, `ofList_scan`,
is that whatever the ensemble of a list is asked, it answers as one who goes through the list.
-/

namespace Ostinato.Ensemble

/-- An ensemble that holds some instruments, of which the first of each type plays. -/
structure Holds (e : Ensemble) (is : List Instrument) : Prop where
  members : e.members = is
  findByType : ∀ type, e.findByType type = is.find? fun i => i.type = type

variable {e : Ensemble} {is : List Instrument} {i : Instrument}

/-- The empty ensemble holds no instruments. -/
theorem holds_empty : empty.Holds [] := ⟨rfl, fun _ => rfl⟩

/-- An ensemble contains a name if one of its instruments has it. -/
theorem Holds.contains_eq (h : e.Holds is) (name : String) :
    e.contains name = true ↔ name ∈ is.map Instrument.name := by
  rw [contains, names, h.members, List.contains_iff_mem]

/-- A name that is taken is not given again. -/
theorem Holds.add_of_mem (h : e.Holds is) (hname : i.name ∈ is.map Instrument.name) :
    e.add i = .error ⟨i.name⟩ := by
  rw [add, if_pos ((h.contains_eq i.name).mpr hname)]

/-- Under a new name an instrument comes last, and plays if it is the first of its type. -/
theorem Holds.add_of_not_mem (h : e.Holds is) (hname : i.name ∉ is.map Instrument.name) :
    ∃ e', e.add i = .ok e' ∧ e'.Holds (is ++ [i]) := by
  refine ⟨_, if_neg (fun hmem => hname ((h.contains_eq i.name).mp hmem)), ?_, fun type => ?_⟩
  · rw [h.members]
  · have hold : e.byType.lookup type = is.find? fun i => i.type = type := h.findByType type
    rw [List.find?_append, List.find?_singleton, ← hold]
    cases hfound : e.findByType i.type with
    | none =>
      have hlast : ([(i.type, i)] : List (Text × Instrument)).lookup type
          = if decide (i.type = type) then some i else none := by
        by_cases htype : type = i.type
        · simp [htype]
        · have hne : (type == i.type) = false := beq_false_of_ne htype
          simp [List.lookup_cons, hne, Ne.symm htype]
      simp only [Ensemble.findByType, Option.isSome_none, Bool.false_eq_true, if_false,
        List.lookup_append, hlast]
    | some first =>
      simp only [Ensemble.findByType, Option.isSome_some, if_true]
      -- whoever has the type of the new instrument came earlier
      by_cases htype : i.type = type
      · rw [← htype]
        rw [Ensemble.findByType] at hfound
        rw [hfound, Option.some_or]
      · rw [if_neg (by simpa using htype), Option.or_none]

/-- Instruments can all be added if no name comes twice. -/
theorem Holds.exists_addAll {rest : List Instrument} (h : e.Holds is)
    (hnames : ((is ++ rest).map Instrument.name).Nodup) :
    ∃ e', e.addAll rest = .ok e' ∧ e'.Holds (is ++ rest) := by
  induction rest generalizing e is with
  | nil => exact ⟨e, rfl, by rwa [List.append_nil]⟩
  | cons i rest ih =>
    have hnew : i.name ∉ is.map Instrument.name := by
      rw [List.map_append, List.map_cons] at hnames
      exact fun hmem => (List.disjoint_of_nodup_append hnames) hmem List.mem_cons_self
    obtain ⟨e', hadd, hholds⟩ := h.add_of_not_mem hnew
    obtain ⟨e'', haddAll, hholds'⟩ := ih hholds (by simpa using hnames)
    exact ⟨e'', by rw [addAll, hadd]; exact haddAll, by simpa using hholds'⟩

/-- Instruments with distinct names make an ensemble. -/
theorem exists_ofList (hnames : (is.map Instrument.name).Nodup) :
    ∃ e, ofList is = .ok e ∧ e.Holds is :=
  holds_empty.exists_addAll hnames

/-- Whoever plays is one of the instruments, and of the type that was asked for. -/
theorem Holds.mem_of_findByType (h : e.Holds is) {type : Text} (hi : e.findByType type = some i) :
    i ∈ is ∧ i.type = type := by
  rw [h.findByType] at hi
  exact ⟨List.mem_of_find?_eq_some hi, by simpa using List.find?_some hi⟩

/-- An instrument that comes in between changes who plays for no type but its own, and for its own
only if it is the first to have it. -/
theorem Holds.findByType_insert {e' : Ensemble} {before after : List Instrument}
    (h : e.Holds (before ++ after)) (h' : e'.Holds (before ++ i :: after)) {type : Text}
    (hidle : i.type ≠ type ∨ ∃ j ∈ before, j.type = i.type) :
    e'.findByType type = e.findByType type := by
  rw [h.findByType, h'.findByType, List.find?_append, List.find?_append]
  by_cases htype : i.type = type
  · obtain hne | ⟨j, hj, hsame⟩ := hidle
    · exact absurd htype hne
    · -- the type is found in front of both
      have hfound : (before.find? fun i => i.type = type).isSome = true :=
        List.find?_isSome.mpr ⟨j, hj, by simp [hsame, htype]⟩
      obtain ⟨k, hk⟩ := Option.isSome_iff_exists.mp hfound
      rw [hk, Option.some_or, Option.some_or]
  · rw [List.find?_cons_of_neg (by simpa using htype)]

/-! ## All instruments of a list -/

/-- To add two lists is to add the first and then the second. -/
theorem addAll_append (e : Ensemble) (is js : List Instrument) :
    e.addAll (is ++ js) = (e.addAll is).bind (·.addAll js) := by
  induction is generalizing e with
  | nil => rfl
  | cons i is ih =>
    rw [List.cons_append, addAll, addAll]
    cases e.add i with
    | error fault => rfl
    | ok next => exact ih next

/-- The first of some instruments whose name an earlier one has already. -/
def IsFirstRepeat (is : List Instrument) (i : Instrument) : Prop :=
  ∃ before after, is = before ++ i :: after ∧
    (before.map Instrument.name).Nodup ∧ i.name ∈ before.map Instrument.name

/-- If a name comes twice, some instrument is the first to repeat one. -/
theorem exists_firstRepeat (h : ¬ (is.map Instrument.name).Nodup) : ∃ i, IsFirstRepeat is i := by
  induction is using List.reverseRecOn with
  | nil => exact absurd List.nodup_nil h
  | append_singleton is i ih =>
    by_cases hnames : (is.map Instrument.name).Nodup
    · refine ⟨i, is, [], rfl, hnames, ?_⟩
      by_contra hnew
      apply h
      rw [List.map_append, List.map_singleton, ← List.concat_eq_append]
      exact hnames.concat hnew
    · obtain ⟨j, before, after, rfl, hbefore, hj⟩ := ih hnames
      exact ⟨j, before, after ++ [i], by simp, hbefore, hj⟩

/-- If some instrument repeats a name, that name comes twice. -/
theorem not_nodup_of_isFirstRepeat (h : IsFirstRepeat is i) :
    ¬ (is.map Instrument.name).Nodup := by
  obtain ⟨before, after, rfl, -, hi⟩ := h
  intro hnames
  rw [List.map_append, List.map_cons] at hnames
  exact List.disjoint_of_nodup_append hnames hi List.mem_cons_self

/-- Where a name comes twice, no ensemble is made, and the fault names the first to repeat one. -/
theorem ofList_of_isFirstRepeat (h : IsFirstRepeat is i) : ofList is = .error ⟨i.name⟩ := by
  obtain ⟨before, after, rfl, hnames, hi⟩ := h
  obtain ⟨e, he, hholds⟩ := exists_ofList hnames
  rw [ofList] at he
  rw [ofList, addAll_append, he, Except.bind, addAll, hholds.add_of_mem hi]

/-- A list makes no ensemble just if a name is repeated, and the first that is stands in the
fault. -/
theorem ofList_eq_error_iff {fault : DuplicateName} :
    ofList is = .error fault ↔ ∃ i, IsFirstRepeat is i ∧ fault = ⟨i.name⟩ := by
  constructor
  · intro h
    have hnames : ¬ (is.map Instrument.name).Nodup := by
      intro hnames
      obtain ⟨e, he, -⟩ := exists_ofList hnames
      rw [he] at h
      cases h
    obtain ⟨i, hi⟩ := exists_firstRepeat hnames
    rw [ofList_of_isFirstRepeat hi] at h
    cases h
    exact ⟨i, hi, rfl⟩
  · rintro ⟨i, hi, rfl⟩
    exact ofList_of_isFirstRepeat hi

/-- Whatever ensemble is made of a list holds the list, in which no name comes twice. -/
theorem holds_of_ofList (h : ofList is = .ok e) :
    e.Holds is ∧ (is.map Instrument.name).Nodup := by
  have hnames : (is.map Instrument.name).Nodup := by
    by_contra hrepeats
    obtain ⟨i, hi⟩ := exists_firstRepeat hrepeats
    rw [ofList_of_isFirstRepeat hi] at h
    cases h
  obtain ⟨e', he', hholds⟩ := exists_ofList hnames
  rw [he'] at h
  cases h
  exact ⟨hholds, hnames⟩

/-- Under distinct names there is one instrument of a name at most, and it is the one that is
found. -/
theorem Holds.get?_eq_some_iff (h : e.Holds is) (hnames : (is.map Instrument.name).Nodup)
    {name : String} : e.get? name = some i ↔ i ∈ is ∧ i.name = name := by
  rw [get?, h.members]
  constructor
  · intro hfound
    exact ⟨List.mem_of_find?_eq_some hfound, by simpa using List.find?_some hfound⟩
  · rintro ⟨hi, rfl⟩
    cases hfound : is.find? (·.name = i.name) with
    | none => exact absurd (List.find?_eq_none.mp hfound i hi) (by simp)
    | some j =>
      have hname : j.name = i.name := by simpa using List.find?_some hfound
      rw [List.inj_on_of_nodup_map hnames (List.mem_of_find?_eq_some hfound) hi hname]

/-- An ensemble contains a name just if it has an instrument for it. -/
theorem Holds.contains_eq_isSome (h : e.Holds is) (name : String) :
    e.contains name = (e.get? name).isSome := by
  rw [Bool.eq_iff_iff, h.contains_eq, get?, h.members, List.find?_isSome, List.mem_map]
  simp only [decide_eq_true_eq]

/-- The instrument of a type is the first one of that type. -/
theorem Holds.findByType_eq_some_iff (h : e.Holds is) {type : Text} :
    e.findByType type = some i ↔
      ∃ before after, is = before ++ i :: after ∧ i.type = type ∧ ∀ j ∈ before, j.type ≠ type := by
  rw [h.findByType, List.find?_eq_some_iff_append]
  simp only [decide_eq_true_eq, Bool.not_eq_true', decide_eq_false_iff_not]
  constructor
  · rintro ⟨htype, before, after, his, hbefore⟩
    exact ⟨before, after, his, htype, hbefore⟩
  · rintro ⟨before, after, his, htype, hbefore⟩
    exact ⟨htype, before, after, his, hbefore⟩

/-- There is no instrument of a type just if none has it. -/
theorem Holds.findByType_eq_none_iff (h : e.Holds is) {type : Text} :
    e.findByType type = none ↔ ∀ i ∈ is, i.type ≠ type := by
  rw [h.findByType, List.find?_eq_none]
  simp only [decide_eq_true_eq]

/-- The ensemble of a list, against going through the list. There is none exactly if two instruments
have one name, and then the fault names the first instrument whose name an earlier one has.
Otherwise the names and the members are those of the list in its order, an instrument is found under
its name and under no other, and for a type the first instrument of the list plays that has it,
whatever types are shared and whatever names are also types. -/
theorem ofList_scan (is : List Instrument) :
    (∀ fault, ofList is = .error fault ↔ ∃ i, IsFirstRepeat is i ∧ fault.name = i.name) ∧
    ((∃ fault, ofList is = .error fault) ↔ ¬ (is.map Instrument.name).Nodup) ∧
    ∀ e, ofList is = .ok e →
      e.names = is.map Instrument.name ∧ e.members = is ∧ e.size = is.length ∧
      (∀ name i, e.get? name = some i ↔ i ∈ is ∧ i.name = name) ∧
      (∀ name, e.contains name = (e.get? name).isSome) ∧
      (∀ type i, e.findByType type = some i ↔
        ∃ before after, is = before ++ i :: after ∧ i.type = type ∧ ∀ j ∈ before, j.type ≠ type) ∧
      ∀ type, e.findByType type = none ↔ ∀ i ∈ is, i.type ≠ type := by
  refine ⟨fun fault => ?fault, ⟨?repeated, ?distinct⟩, fun e he => ?answers⟩
  case fault =>
    obtain ⟨name⟩ := fault
    rw [ofList_eq_error_iff]
    simp only [DuplicateName.mk.injEq]
  case repeated =>
    rintro ⟨fault, hfault⟩
    obtain ⟨i, hi, -⟩ := ofList_eq_error_iff.mp hfault
    exact not_nodup_of_isFirstRepeat hi
  case distinct =>
    intro hrepeats
    obtain ⟨i, hi⟩ := exists_firstRepeat hrepeats
    exact ⟨_, ofList_of_isFirstRepeat hi⟩
  case answers =>
    obtain ⟨hholds, hnames⟩ := holds_of_ofList he
    refine ⟨by rw [names, hholds.members], hholds.members, by rw [size, hholds.members],
      fun name i => hholds.get?_eq_some_iff hnames, hholds.contains_eq_isSome,
      fun type i => hholds.findByType_eq_some_iff, fun type => hholds.findByType_eq_none_iff⟩

end Ostinato.Ensemble

import Mathlib
import Ostinato.Disk.Descriptor
import Ostinato.Part
import Ostinato.Proofs.Check.Problems
import Ostinato.Proofs.Check.Read
import Ostinato.Proofs.Value.Simple

/-!
# What a part may look like

The check of a part reads its fields and its notes one inside the other. `Part.IsTrack` says without
a check which values pass it, `Part.Spelled` what they are read as, and `Part.instrumentIssues` and
`Part.notesIssues` list what is wrong with the others. `grammar_of_part` says that the check does
just that to every simple value whose durations have room for their texts (`Part.Fits`). A duration
without that room is met as what is nested too deeply, whatever else the value holds.
-/

namespace Ostinato

namespace Value

/-- The value under a name, unless it is null. -/
def given? (name : Text) (entries : List (Value × Value)) : Option Value :=
  match lookup name entries with
  | some null => none
  | found => found

/-- A value that is a text. -/
def IsText (v : Value) : Prop := ∃ t, v = .text t

/-- What is wrong with a value where a text has to be. -/
def textIssues : Value → List Issue
  | text _ => []
  | _ => [⟨[], .notText⟩]

/-- What is wrong with a value where a list has to be: that it is none, or what is wrong with its
elements, each under its index. -/
def listIssues (pool : Pool) (each : Value → List Issue) (v : Value) : List Issue :=
  match pool.resolve v with
  | list items => items.zipIdx.flatMap fun p => (each p.1).map (Issue.under (.index p.2))
  | _ => [⟨[], .notList⟩]

/-- What is wrong with a field that may be left out. -/
def fieldIssues (name : String) (each : Value → List Issue) : Option Value → List Issue
  | none => []
  | some v => (each v).map (Issue.under (.name name))

end Value

open Value (lookup given? fieldIssues listIssues textIssues)

/-! ## The grammar -/

namespace Slot

/-- The entries of a note: some duration, and either a pitch, which is a text, or pitches, which are
a list of texts. Null is as good as absent. -/
structure Entries (pool : Pool) (entries : List (Value × Value)) : Prop where
  duration : (lookup "duration" entries).isSome = true
  pitch : ∀ v, given? "pitch" entries = some v → v.IsText
  pitches : ∀ v, given? "pitches" entries = some v →
    ∃ items, pool.resolve v = .list items ∧ ∀ w ∈ items, w.IsText
  choice : (given? "pitch" entries).isSome ≠ (given? "pitches" entries).isSome

/-- A mapping with the entries of a note. -/
def IsNote (pool : Pool) (v : Value) : Prop :=
  ∃ entries, pool.resolve v = .dict entries ∧ Entries pool entries

/-- There is room for the text of the duration of a note, if the value is a mapping that has one. -/
def Fits (pool : Pool) (v : Value) : Prop :=
  ∀ entries duration, pool.resolve v = .dict entries → lookup "duration" entries = some duration →
    duration.Simple pool (pool.room + 1)

/-- What a note is read as. Its duration is a text as it stands, or the text of any other value; its
tokens are the one pitch or all the pitches. -/
def Spelled (pool : Pool) (v : Value) (s : Slot) : Prop :=
  ∃ entries duration, pool.resolve v = .dict entries ∧
    lookup "duration" entries = some duration ∧
    (duration = .text s.duration ∨
      ¬ duration.IsText ∧ durationCode pool duration = .ok s.duration) ∧
    ((∃ t, lookup "pitch" entries = some (.text t) ∧ s.sound = .single t ∧ s.tokens = [t]) ∨
      ∃ pitches ts, lookup "pitches" entries = some pitches ∧
        pool.resolve pitches = .list (ts.map .text) ∧ s.sound = .chord ts ∧ s.tokens = ts)

/-- What is wrong with the fields of a note, one by one. -/
def entryIssues (pool : Pool) (entries : List (Value × Value)) : List Issue :=
  (if (lookup "duration" entries).isSome then [] else [⟨[.name "duration"], .missing⟩]) ++
    fieldIssues "pitch" textIssues (given? "pitch" entries) ++
    fieldIssues "pitches" (listIssues pool textIssues) (given? "pitches" entries)

/-- What is wrong with a note. That it has neither or both of its two fields for pitches is only
found if there is nothing wrong with the fields. -/
def issues (pool : Pool) (v : Value) : List Issue :=
  match pool.resolve v with
  | .dict entries =>
    match entryIssues pool entries with
    | [] =>
      if (given? "pitch" entries).isSome ≠ (given? "pitches" entries).isSome then []
      else [⟨[], .pitchChoice⟩]
    | found => found
  | _ => [⟨[], .notRecord "NoteEntry"⟩]

end Slot

namespace Part

/-- The entries of a part: an instrument, which is a text, and perhaps notes, which are a list. Null
is no list. -/
structure Entries (pool : Pool) (entries : List (Value × Value)) : Prop where
  instrument : ∃ t, lookup "instrument" entries = some (.text t)
  notes : ∀ v, lookup "notes" entries = some v →
    ∃ items, pool.resolve v = .list items ∧ ∀ w ∈ items, Slot.IsNote pool w

/-- A mapping with the entries of a part. -/
def IsTrack (pool : Pool) (v : Value) : Prop :=
  ∃ entries, pool.resolve v = .dict entries ∧ Entries pool entries

/-- There is room for the durations of all notes of a part. -/
def Fits (pool : Pool) (v : Value) : Prop :=
  ∀ entries notes items, pool.resolve v = .dict entries → lookup "notes" entries = some notes →
    pool.resolve notes = .list items → ∀ w ∈ items, Slot.Fits pool w

/-- What a part is read as: a slot for each note, in order. -/
def Spelled (pool : Pool) (v : Value) (p : Part) : Prop :=
  ∃ entries, pool.resolve v = .dict entries ∧
    lookup "instrument" entries = some (.text p.instrument) ∧
    ((lookup "notes" entries = none ∧ p.slots = []) ∨
      ∃ notes items, lookup "notes" entries = some notes ∧ pool.resolve notes = .list items ∧
        List.Forall₂ (Slot.Spelled pool) items p.slots)

/-- What is wrong with the instrument of a part. -/
def instrumentIssues (entries : List (Value × Value)) : List Issue :=
  match lookup "instrument" entries with
  | none => [⟨[.name "instrument"], .missing⟩]
  | some v => (textIssues v).map (Issue.under (.name "instrument"))

/-- What is wrong with the notes of a part: that they are no list, or all that is wrong with each of
them, under its index. -/
def notesIssues (pool : Pool) (entries : List (Value × Value)) : List Issue :=
  fieldIssues "notes" (listIssues pool (Slot.issues pool)) (lookup "notes" entries)

end Part

variable {pool : Pool} {v : Value} {entries : List (Value × Value)} {levels : Nat}

/-! ## Nothing wrong -/

namespace Value

/-- A value without text issues is a text. -/
theorem textIssues_eq_nil_iff : textIssues v = [] ↔ v.IsText := by
  cases v <;> simp [textIssues, IsText]

/-- A value without list issues is a list of elements without issues. -/
theorem listIssues_eq_nil_iff {each : Value → List Issue} :
    listIssues pool each v = [] ↔
      ∃ items, pool.resolve v = .list items ∧ ∀ w ∈ items, each w = [] := by
  rw [listIssues]
  split
  next items hitems =>
    simp only [hitems, list.injEq, exists_eq_left', List.flatMap_eq_nil_iff, List.map_eq_nil_iff]
    constructor
    · intro h w hw
      rw [← List.zipIdx_map_fst 0 items] at hw
      obtain ⟨p, hp, rfl⟩ := List.mem_map.mp hw
      exact h p hp
    · exact fun h p hp => h p.1 (List.fst_mem_of_mem_zipIdx hp)
  next hlist =>
    refine iff_of_false (List.cons_ne_nil _ _) ?_
    rintro ⟨items, hitems, -⟩
    exact hlist items hitems

/-- A field without issues is absent or has a value without issues. -/
theorem fieldIssues_eq_nil_iff {name : String} {each : Value → List Issue} {o : Option Value} :
    fieldIssues name each o = [] ↔ ∀ v, o = some v → each v = [] := by
  cases o <;> simp [fieldIssues]

end Value

/-- Entries without issues have a duration, and a pitch and pitches only of the right kind. -/
theorem Slot.entryIssues_eq_nil_iff :
    Slot.entryIssues pool entries = [] ↔
      (lookup "duration" entries).isSome = true ∧
      (∀ v, given? "pitch" entries = some v → v.IsText) ∧
      ∀ v, given? "pitches" entries = some v →
        ∃ items, pool.resolve v = .list items ∧ ∀ w ∈ items, w.IsText := by
  have hduration : (if (lookup "duration" entries).isSome then []
      else [(⟨[.name "duration"], .missing⟩ : Issue)]) = []
        ↔ (lookup "duration" entries).isSome = true := by
    split_ifs with h <;> simp [h]
  simp only [Slot.entryIssues, List.append_eq_nil_iff, Value.fieldIssues_eq_nil_iff,
    Value.textIssues_eq_nil_iff, Value.listIssues_eq_nil_iff, and_assoc, hduration]

/-- Nothing is wrong with a value exactly if it is a note. -/
theorem Slot.issues_eq_nil_iff : Slot.issues pool v = [] ↔ Slot.IsNote pool v := by
  rw [Slot.issues]
  split
  next entries hentries =>
    have hnote : Slot.IsNote pool v ↔ Slot.Entries pool entries := by
      rw [Slot.IsNote, hentries]
      simp
    rw [hnote]
    split
    next hnone =>
      obtain ⟨hduration, hpitch, hpitches⟩ := Slot.entryIssues_eq_nil_iff.mp hnone
      by_cases hchoice : (given? "pitch" entries).isSome ≠ (given? "pitches" entries).isSome
      · rw [if_pos hchoice]
        exact iff_of_true rfl ⟨hduration, hpitch, hpitches, hchoice⟩
      · rw [if_neg hchoice]
        exact iff_of_false (List.cons_ne_nil _ _) fun h => hchoice h.choice
    next hsome =>
      refine iff_of_false hsome fun h => hsome ?_
      exact Slot.entryIssues_eq_nil_iff.mpr ⟨h.duration, h.pitch, h.pitches⟩
  next hdict =>
    refine iff_of_false (List.cons_ne_nil _ _) ?_
    rintro ⟨entries, hentries, -⟩
    exact hdict entries hentries

/-- Entries without issues of the instrument have a text for it. -/
theorem Part.instrumentIssues_eq_nil_iff :
    Part.instrumentIssues entries = [] ↔ ∃ t, lookup "instrument" entries = some (.text t) := by
  rw [Part.instrumentIssues]
  cases lookup "instrument" entries with
  | none => simp
  | some v => simp [Value.textIssues_eq_nil_iff, Value.IsText]

/-- Nothing is wrong with a mapping exactly if it has the entries of a part. -/
theorem Part.issues_eq_nil_iff :
    Part.instrumentIssues entries ++ Part.notesIssues pool entries = []
      ↔ Part.Entries pool entries := by
  rw [List.append_eq_nil_iff, Part.instrumentIssues_eq_nil_iff, Part.notesIssues,
    Value.fieldIssues_eq_nil_iff]
  simp only [Value.listIssues_eq_nil_iff, Slot.issues_eq_nil_iff]
  exact ⟨fun ⟨hinstrument, hnotes⟩ => ⟨hinstrument, hnotes⟩, fun h => ⟨h.instrument, h.notes⟩⟩

/-! ## What the check finds -/

namespace Value

open Checked

variable {α : Type} {read : Value → Checked α} {each : Value → List Issue}

/-- A simple value is no set and no pair, nor is what it refers to. -/
theorem Simple.resolve_ne (hv : v.Simple pool levels) :
    (∀ members, pool.resolve v ≠ .set members) ∧ ∀ a b, pool.resolve v ≠ .pair a b := by
  have hresolve := hv.resolve
  constructor
  · intro members heq
    rw [heq] at hresolve
    cases hresolve with | list h | dict h => cases h
  · intro a b heq
    rw [heq] at hresolve
    cases hresolve with | list h | dict h => cases h

/-- Of a simple value a text is read if it is one; bytes, which may count as a text, are not
simple. -/
theorem problems_asText (hv : v.Simple pool levels) : v.asText.problems = textIssues v := by
  cases v with
  | bytes data => cases hv with | list h | dict h => cases h
  | _ => rfl

/-- What is wrong with a simple value as a list is what is wrong with its elements. -/
theorem problems_asList (hv : v.Simple pool levels)
    (hread : ∀ items, pool.resolve v = .list items → ∀ w ∈ items, w.Simple pool levels →
      (read w).problems = each w) :
    (asList pool read v).problems = listIssues pool each v := by
  have hresolve := hv.resolve
  obtain ⟨hset, hpair⟩ := hv.resolve_ne
  rw [asList, listIssues]
  cases hv' : pool.resolve v with
  | list items =>
    rw [hv'] at hresolve
    dsimp only
    rw [problems_elementsFrom]
    refine List.flatMap_congr fun p hp => ?_
    have hmem := List.fst_mem_of_mem_zipIdx hp
    rw [hread items hv' p.1 hmem (hresolve.of_mem_list hmem)]
  | set members => exact absurd hv' (hset members)
  | pair a b => exact absurd hv' (hpair a b)
  | _ => rfl

/-- A mapping is a record of its entries. -/
theorem asRecord_of_dict (h : pool.resolve v = .dict entries) (name : String) :
    asRecord pool name v = .ok entries := by
  rw [asRecord, h]

/-- Nothing but a mapping is a record. -/
theorem asRecord_of_not_dict (h : ∀ entries, pool.resolve v ≠ .dict entries) (name : String) :
    asRecord pool name v = refuse (.notRecord name) := by
  rw [asRecord]
  split
  next entries hentries => exact absurd hentries (h entries)
  next => rfl

/-- A required entry has the problem that it is missing, or those of its value. -/
theorem problems_required {label name : String} :
    (required read entries label [name]).problems
      = match lookup name entries with
        | none => [⟨[.name label], .missing⟩]
        | some w => (read w).problems.map (Issue.under (.name name)) := by
  rw [required]
  cases lookup name entries with
  | none => rfl
  | some w => exact problems_under (.name name) (read w)

/-- An entry with a default has the problems of its value, if it is there. -/
theorem problems_optional {default : α} {name : String}
    (hread : ∀ w, lookup name entries = some w → (read w).problems = each w) :
    (Value.optional read default entries [name]).problems
      = fieldIssues name each (lookup name entries) := by
  rw [Value.optional]
  cases hlookup : lookup name entries with
  | none => rfl
  | some w =>
    dsimp only
    rw [problems_under, hread w hlookup, fieldIssues]

/-- A field that may be null is one that may be left out. -/
theorem problems_optional_asOptional {name : String}
    (hread : ∀ w, lookup name entries = some w → (read w).problems = each w) :
    (Value.optional (asOptional read) none entries [name]).problems
      = fieldIssues name each (given? name entries) := by
  rw [Value.optional, given?]
  cases hlookup : lookup name entries with
  | none => rfl
  | some w =>
    cases w with
    | null => rfl
    | _ =>
      have heach := hread _ hlookup
      simp only [asOptional, problems_under, problems_map, heach, fieldIssues]

/-- A field that may be null is read exactly if it is given. -/
theorem optional_asOptional_eq_ok {name : String} {o : Option α}
    (h : Value.optional (asOptional read) none entries [name] = .ok o) :
    (given? name entries = none ∧ o = none) ∨
      ∃ w a, lookup name entries = some w ∧ given? name entries = some w ∧ read w = .ok a ∧
        o = some a := by
  rw [given?]
  obtain ⟨hlookup, rfl⟩ | ⟨w, hlookup, hread⟩ := optional_eq_ok_iff.mp h
  · rw [hlookup]
    exact .inl ⟨rfl, rfl⟩
  · rw [hlookup]
    cases w with
    | null =>
      cases hread
      exact .inl ⟨rfl, rfl⟩
    | _ =>
      obtain ⟨a, ha, rfl⟩ := map_eq_ok_iff.mp hread
      exact .inr ⟨_, a, rfl, rfl, ha, rfl⟩

/-- A field that may be null is read as something just if it is given. -/
theorem isSome_of_optional_asOptional {name : String} {o : Option α}
    (h : Value.optional (asOptional read) none entries [name] = .ok o) :
    o.isSome = (given? name entries).isSome := by
  obtain ⟨hnone, rfl⟩ | ⟨w, a, -, hsome, -, rfl⟩ := optional_asOptional_eq_ok h
  · rw [hnone]
    rfl
  · rw [hsome]
    rfl

/-- A simple value that is read as a text is this text. -/
theorem eq_text_of_asText (hv : v.Simple pool levels) {t : Text} (h : v.asText = .ok t) :
    v = .text t := by
  cases v with
  | text t' =>
    cases h
    rfl
  | bytes data => cases hv with | list h | dict h => cases h
  | _ => cases h

/-- A simple value that is read as a list is one, and its elements have been read in order. -/
theorem exists_of_asList {as : List α} (hv : v.Simple pool levels)
    (h : asList pool read v = .ok as) :
    ∃ items, pool.resolve v = .list items ∧ (∀ w ∈ items, w.Simple pool levels) ∧
      List.Forall₂ (fun w a => read w = .ok a) items as := by
  have hresolve := hv.resolve
  obtain ⟨hset, hpair⟩ := hv.resolve_ne
  rw [asList] at h
  cases hv' : pool.resolve v with
  | list items =>
    rw [hv'] at hresolve h
    exact ⟨items, rfl, fun w hw => hresolve.of_mem_list hw, elementsFrom_eq_ok_iff.mp h⟩
  | set members => exact absurd hv' (hset members)
  | pair a b => exact absurd hv' (hpair a b)
  | _ => rw [hv'] at h; cases h

/-- Simple values that are all read as texts are these texts. -/
theorem eq_map_text_of_asText {items : List Value} {ts : List Text}
    (hitems : ∀ w ∈ items, w.Simple pool levels)
    (h : List.Forall₂ (fun w t => w.asText = .ok t) items ts) : items = ts.map .text := by
  induction h with
  | nil => rfl
  | @cons w t items ts hfirst _ ih =>
    rw [List.map_cons, ← eq_text_of_asText (hitems w List.mem_cons_self) hfirst,
      ← ih fun w' hw' => hitems w' (List.mem_cons_of_mem w hw')]

end Value

/-! ### Notes -/

namespace Slot

open Checked Value

/-- The choice between a pitch and pitches has a problem unless exactly one is made. -/
theorem problems_soundOf (pitch : Option Text) (pitches : Option (List Text)) :
    (soundOf pitch pitches).problems
      = if pitch.isSome ≠ pitches.isSome then [] else [⟨[], .pitchChoice⟩] := by
  cases pitch <;> cases pitches <;> rfl

/-- Nothing is wrong with a duration that there is room for. -/
theorem problems_asDuration (hv : v.Simple pool (pool.room + 1)) :
    (asDuration pool v).problems = [] := by
  obtain ⟨code, hcode⟩ := hv.exists_durationCode
  rw [asDuration, hcode]
  rfl

/-- The fields of a note, as the check reads them. -/
def fields (pool : Pool) (entries : List (Value × Value)) :
    Checked (Text × Option Text × Option (List Text)) :=
  both Prod.mk (Value.required (asDuration pool) entries "duration" ["duration"])
    (both Prod.mk (Value.optional (Value.asOptional Value.asText) none entries ["pitch"])
      (Value.optional (Value.asOptional (Value.asList pool Value.asText)) none entries ["pitches"]))

/-- The check of a note goes through the entries of a mapping. -/
theorem ofValue_of_dict (h : pool.resolve v = .dict entries) :
    ofValue pool v = (fields pool entries).andThen
      fun (duration, pitch, pitches) => (soundOf pitch pitches).map (Slot.mk duration) := by
  rw [ofValue, asRecord_of_dict h]
  rfl

/-- Nothing but a mapping is a note. -/
theorem ofValue_of_not_dict (h : ∀ entries, pool.resolve v ≠ .dict entries) :
    ofValue pool v = .error [⟨[], .notRecord "NoteEntry"⟩] := by
  rw [ofValue, asRecord_of_not_dict h]
  rfl

/-- The check of a duration is reasoned. -/
theorem reasoned_asDuration (v : Value) : (asDuration pool v).Reasoned := by
  rw [asDuration]
  cases durationCode pool v with
  | ok code => exact reasoned_ok code
  | error reason => exact reasoned_refuse _

/-- The check of the fields of a note is reasoned. -/
theorem reasoned_fields (pool : Pool) (entries : List (Value × Value)) :
    (fields pool entries).Reasoned :=
  (reasoned_required reasoned_asDuration entries _ _).both
    ((reasoned_optional (reasoned_asOptional reasoned_asText) _ entries _).both
      (reasoned_optional (reasoned_asOptional (reasoned_asList reasoned_asText)) _ entries _) _) _

/-- The check of a note is reasoned. -/
theorem reasoned_ofValue (v : Value) : (ofValue pool v).Reasoned := by
  refine (reasoned_asRecord _ v).andThen fun entries => (reasoned_fields pool entries).andThen ?_
  rintro ⟨duration, pitch, pitches⟩
  refine Reasoned.map ?_ _
  cases pitch <;> cases pitches <;> first | exact reasoned_ok _ | exact reasoned_refuse _

/-- What the check finds wrong with the fields of a note. -/
theorem problems_fields (h : Value.Simple pool levels (.dict entries))
    (hfits : ∀ w, lookup "duration" entries = some w → w.Simple pool (pool.room + 1)) :
    (fields pool entries).problems = entryIssues pool entries := by
  have hduration : (Value.required (asDuration pool) entries "duration" ["duration"]).problems
      = if (lookup "duration" entries).isSome then [] else [⟨[.name "duration"], .missing⟩] := by
    rw [problems_required]
    cases hlookup : lookup "duration" entries with
    | none => rfl
    | some w =>
      dsimp only
      rw [problems_asDuration (hfits w hlookup)]
      rfl
  have hpitch := problems_optional_asOptional fun w (hw : lookup "pitch" entries = some w) =>
    problems_asText (h.of_lookup hw)
  have hpitches := problems_optional_asOptional fun w (hw : lookup "pitches" entries = some w) =>
    problems_asList (h.of_lookup hw) fun _ _ w' _ hw' => problems_asText hw'
  rw [fields, problems_both, problems_both, hduration, hpitch, hpitches, entryIssues,
    List.append_assoc]

/-- What the check finds wrong with a simple value is what is wrong with it as a note. -/
theorem problems_ofValue (hv : v.Simple pool levels) (hfits : Fits pool v) :
    (ofValue pool v).problems = issues pool v := by
  by_cases hdict : ∃ entries, pool.resolve v = .dict entries
  · obtain ⟨entries, hentries⟩ := hdict
    have hproblems := problems_fields (hentries ▸ hv.resolve) fun w => hfits entries w hentries
    rw [ofValue_of_dict hentries, issues, hentries]
    dsimp only
    cases hfields : fields pool entries with
    | error found =>
      rw [hfields, problems] at hproblems
      have hsome := (reasoned_fields pool entries).ne_nil hfields
      rw [andThen, problems, ← hproblems]
      split
      · exact absurd rfl hsome
      · rfl
    | ok field =>
      obtain ⟨duration, pitch, pitches⟩ := field
      rw [hfields, problems] at hproblems
      obtain ⟨_, rest, -, hrest, hfield⟩ := both_eq_ok_iff.mp hfields
      cases hfield
      obtain ⟨_, _, hpitch, hpitches, hfield⟩ := both_eq_ok_iff.mp hrest
      cases hfield
      rw [andThen, problems_map, problems_soundOf, ← hproblems,
        isSome_of_optional_asOptional hpitch, isSome_of_optional_asOptional hpitches]
  · rw [not_exists] at hdict
    rw [ofValue_of_not_dict hdict, issues]
    split
    next entries hentries => exact absurd hentries (hdict entries)
    next => rfl

/-- A simple value passes the check of a note exactly if it is one. -/
theorem exists_ofValue_iff (hv : v.Simple pool levels) (hfits : Fits pool v) :
    (∃ s, ofValue pool v = .ok s) ↔ IsNote pool v := by
  rw [(reasoned_ofValue v).exists_ok_iff, problems_ofValue hv hfits, issues_eq_nil_iff]

/-- A duration that is refused as nested too deeply is met as such. -/
theorem exists_tooDeep_of_asDuration {entries : List (Value × Value)} {duration : Value}
    (hentries : pool.resolve v = .dict entries)
    (hlookup : lookup "duration" entries = some duration)
    (h : asDuration pool duration = refuse (.unwritable .tooDeep)) :
    ∃ i ∈ (ofValue pool v).problems, i.complaint = .unwritable .tooDeep := by
  have hfields : ∃ i ∈ (fields pool entries).problems, i.complaint = .unwritable .tooDeep := by
    refine ⟨⟨[.name "duration"], .unwritable .tooDeep⟩, ?_, rfl⟩
    rw [fields, problems_both, problems_required, hlookup]
    dsimp only
    rw [h]
    exact List.mem_append_left _ List.mem_cons_self
  rw [ofValue_of_dict hentries]
  cases hread : fields pool entries with
  | error found => rwa [hread] at hfields
  | ok field =>
    -- a check that passes finds nothing
    rw [hread] at hfields
    obtain ⟨i, hi, -⟩ := hfields
    cases hi

/-- A duration without room for its text is met as such. -/
theorem exists_tooDeep_of_not_fits (hv : v.Simple pool levels) (hfits : ¬ Fits pool v) :
    ∃ i ∈ (ofValue pool v).problems, i.complaint = .unwritable .tooDeep := by
  simp only [Fits, not_forall] at hfits
  obtain ⟨entries, duration, hentries, hlookup, hdeep⟩ := hfits
  have hcode := (Simple.of_lookup (hentries ▸ hv.resolve) hlookup).durationCode_eq_error hdeep
  refine exists_tooDeep_of_asDuration hentries hlookup ?_
  rw [asDuration, hcode]

/-- A duration that is accepted is the text itself, or the code of a value that is no text. -/
theorem durationCode_of_asDuration {code : Text} (h : asDuration pool v = .ok code) :
    v = .text code ∨ ¬ v.IsText ∧ durationCode pool v = .ok code := by
  have hcode : durationCode pool v = .ok code := by
    rw [asDuration] at h
    split at h
    next code' hcode' =>
      cases h
      exact hcode'
    next => cases h
  by_cases htext : v.IsText
  · obtain ⟨t, rfl⟩ := htext
    cases hcode
    exact .inl rfl
  · exact .inr ⟨htext, hcode⟩

/-- A note is read as it is spelled. -/
theorem spelled_of_ofValue (hv : v.Simple pool levels) {s : Slot} (h : ofValue pool v = .ok s) :
    Spelled pool v s := by
  by_cases hdict : ∃ entries, pool.resolve v = .dict entries
  · obtain ⟨entries, hentries⟩ := hdict
    have hsimple := hentries ▸ hv.resolve
    rw [ofValue_of_dict hentries] at h
    obtain ⟨⟨code, pitch, pitches⟩, hfields, hsound⟩ := andThen_eq_ok_iff.mp h
    obtain ⟨sound, hsound, rfl⟩ := map_eq_ok_iff.mp hsound
    obtain ⟨_, rest, hduration, hrest, hfield⟩ := both_eq_ok_iff.mp hfields
    cases hfield
    obtain ⟨_, _, hpitch, hpitches, hfield⟩ := both_eq_ok_iff.mp hrest
    cases hfield
    obtain ⟨duration, hlookup, hcode⟩ := required_eq_ok_iff.mp hduration
    refine ⟨entries, duration, hentries, hlookup, durationCode_of_asDuration hcode, ?_⟩
    cases pitch with
    | some t =>
      cases pitches with
      | some ts => cases hsound
      | none =>
        cases hsound
        obtain ⟨-, ⟨⟩⟩ | ⟨w, _, hlookup, -, htext, ⟨⟩⟩ := optional_asOptional_eq_ok hpitch
        rw [eq_text_of_asText (hsimple.of_lookup hlookup) htext] at hlookup
        exact .inl ⟨t, hlookup, rfl, rfl⟩
    | none =>
      cases pitches with
      | none => cases hsound
      | some ts =>
        cases hsound
        obtain ⟨-, ⟨⟩⟩ | ⟨w, _, hlookup, -, hlist, ⟨⟩⟩ := optional_asOptional_eq_ok hpitches
        obtain ⟨items, hitems, helements, hread⟩ :=
          exists_of_asList (hsimple.of_lookup hlookup) hlist
        rw [eq_map_text_of_asText helements hread] at hitems
        exact .inr ⟨w, ts, hlookup, hitems, rfl, rfl⟩
  · rw [not_exists] at hdict
    rw [ofValue_of_not_dict hdict] at h
    cases h

end Slot

/-! ### Parts -/

namespace Part

open Checked Value

/-- The check of a part goes through the entries of a mapping. -/
theorem ofValue_of_dict (h : pool.resolve v = .dict entries) :
    ofValue pool v = both Part.mk (Value.required Value.asText entries "instrument" ["instrument"])
      (Value.optional (Value.asList pool (Slot.ofValue pool)) [] entries ["notes"]) := by
  rw [ofValue, asRecord_of_dict h]
  rfl

/-- Nothing but a mapping is a part. -/
theorem ofValue_of_not_dict (h : ∀ entries, pool.resolve v ≠ .dict entries) :
    ofValue pool v = .error [⟨[], .notRecord "TrackDefinition"⟩] := by
  rw [ofValue, asRecord_of_not_dict h]
  rfl

/-- The check of a part is reasoned. -/
theorem reasoned_ofValue (v : Value) : (ofValue pool v).Reasoned :=
  (reasoned_asRecord _ v).andThen fun entries =>
    (reasoned_required reasoned_asText entries _ _).both
      (reasoned_optional (reasoned_asList Slot.reasoned_ofValue) _ entries _) _

/-- What the check finds wrong with a simple mapping is what is wrong with its instrument, and then
what is wrong with its notes. -/
theorem problems_ofValue (hv : v.Simple pool levels) (hfits : Fits pool v)
    (hentries : pool.resolve v = .dict entries) :
    (ofValue pool v).problems = instrumentIssues entries ++ notesIssues pool entries := by
  have hsimple := hentries ▸ hv.resolve
  have hinstrument : (Value.required Value.asText entries "instrument" ["instrument"]).problems
      = instrumentIssues entries := by
    rw [problems_required, instrumentIssues]
    cases hlookup : lookup "instrument" entries with
    | none => rfl
    | some w =>
      dsimp only
      rw [problems_asText (hsimple.of_lookup hlookup)]
  have hnotes : (Value.optional (asList pool (Slot.ofValue pool)) [] entries ["notes"]).problems
      = notesIssues pool entries :=
    problems_optional fun w hw =>
      problems_asList (hsimple.of_lookup hw) fun items hitems w' hmem hw' =>
        Slot.problems_ofValue hw' (hfits entries w items hentries hw hitems w' hmem)
  rw [ofValue_of_dict hentries, problems_both, hinstrument, hnotes]

/-- A simple value with room for its durations passes the check of a part exactly if it is one. -/
theorem exists_ofValue_iff (hv : v.Simple pool levels) (hfits : Fits pool v) :
    (∃ p, ofValue pool v = .ok p) ↔ IsTrack pool v := by
  by_cases hdict : ∃ entries, pool.resolve v = .dict entries
  · obtain ⟨entries, hentries⟩ := hdict
    rw [(reasoned_ofValue v).exists_ok_iff, problems_ofValue hv hfits hentries,
      issues_eq_nil_iff, IsTrack, hentries]
    simp
  · refine iff_of_false ?_ fun ⟨entries, hentries, _⟩ => hdict ⟨entries, hentries⟩
    rw [not_exists] at hdict
    rw [ofValue_of_not_dict hdict]
    rintro ⟨p, ⟨⟩⟩

/-- A part is read as it is spelled. -/
theorem spelled_of_ofValue (hv : v.Simple pool levels) {p : Part} (h : ofValue pool v = .ok p) :
    Spelled pool v p := by
  by_cases hdict : ∃ entries, pool.resolve v = .dict entries
  · obtain ⟨entries, hentries⟩ := hdict
    have hsimple := hentries ▸ hv.resolve
    rw [ofValue_of_dict hentries] at h
    obtain ⟨instrument, slots, hinstrument, hslots, rfl⟩ := both_eq_ok_iff.mp h
    obtain ⟨w, hlookup, htext⟩ := required_eq_ok_iff.mp hinstrument
    rw [eq_text_of_asText (hsimple.of_lookup hlookup) htext] at hlookup
    refine ⟨entries, hentries, hlookup, ?_⟩
    obtain ⟨hnone, rfl⟩ | ⟨notes, hsome, hlist⟩ := optional_eq_ok_iff.mp hslots
    · exact .inl ⟨hnone, rfl⟩
    · obtain ⟨items, hitems, helements, hread⟩ := exists_of_asList (hsimple.of_lookup hsome) hlist
      have hread' := (List.forall₂_and_left items slots).mpr ⟨helements, hread⟩
      exact .inr ⟨notes, items, hsome, hitems,
        hread'.imp fun w s ⟨hw, hs⟩ => Slot.spelled_of_ofValue hw hs⟩
  · rw [not_exists] at hdict
    rw [ofValue_of_not_dict hdict] at h
    cases h

/-- A note whose duration has no room for its text is met as such. -/
theorem exists_tooDeep_of_not_fits (hv : v.Simple pool levels) (hfits : ¬ Fits pool v) :
    ∃ i ∈ (ofValue pool v).problems, i.complaint = .unwritable .tooDeep := by
  simp only [Fits, not_forall] at hfits
  obtain ⟨entries, notes, items, hentries, hlookup, hitems, w, hw, hdeep⟩ := hfits
  have hnotes := Simple.of_lookup (hentries ▸ hv.resolve) hlookup
  have hsimple := (hitems ▸ hnotes.resolve).of_mem_list hw
  obtain ⟨i, hi, hcomplaint⟩ := Slot.exists_tooDeep_of_not_fits hsimple hdeep
  obtain ⟨n, hn⟩ := List.mem_iff_getElem?.mp hw
  refine ⟨(i.under (.index n)).under (.name "notes"), ?_, hcomplaint⟩
  rw [ofValue_of_dict hentries, problems_both, Value.optional, hlookup]
  dsimp only
  rw [problems_under, asList, hitems]
  dsimp only
  rw [problems_elementsFrom]
  have hpair : (w, n) ∈ items.zipIdx := by
    rw [List.mem_zipIdx_iff_getElem?]
    exact hn
  exact List.mem_append_right _ (List.mem_map_of_mem
    (List.mem_flatMap.mpr ⟨_, hpair, List.mem_map_of_mem hi⟩))

end Part

/-- A check that has found something nested too deeply is refused for it. -/
theorem Checked.exists_error_of_tooDeep {α : Type} {x : Checked α}
    (h : ∃ i ∈ x.problems, i.complaint = .unwritable .tooDeep) :
    ∃ issues, x = .error issues ∧ Descriptor.isTooDeep issues = true := by
  obtain ⟨i, hi, hcomplaint⟩ := h
  cases x with
  | ok a => cases hi
  | error issues =>
    exact ⟨issues, rfl, List.any_eq_true.mpr ⟨i, hi, decide_eq_true hcomplaint⟩⟩

/-- What a part may look like. Of the simple values with room for the texts of their durations those
pass the check of a part that are a mapping with a text for its instrument and, if it has notes, a
list of notes. They are read in order. Any other mapping is refused for some reason, and all reasons
are given: what is wrong with the instrument, and then that the notes are no list or what is wrong
with each of them, found at its index. What is wrong with a note is what the check of notes finds
wrong with it alone. A simple value in which some duration has no such room is neither accepted nor
refused for its issues: it is met as nested too deeply. -/
theorem grammar_of_part (hv : v.Simple pool levels) :
    (Part.Fits pool v →
      ((∃ p, Part.ofValue pool v = .ok p) ↔ Part.IsTrack pool v) ∧
      (∀ p, Part.ofValue pool v = .ok p → Part.Spelled pool v p) ∧
      (∀ entries issues, pool.resolve v = .dict entries → Part.ofValue pool v = .error issues →
        issues ≠ [] ∧ issues = Part.instrumentIssues entries ++ Part.notesIssues pool entries) ∧
      ((∀ entries, pool.resolve v ≠ .dict entries) →
        Part.ofValue pool v = .error [⟨[], .notRecord "TrackDefinition"⟩])) ∧
    (¬ Part.Fits pool v →
      ∃ issues, Part.ofValue pool v = .error issues ∧ Descriptor.isTooDeep issues = true) ∧
    ∀ w levels', w.Simple pool levels' →
      (Slot.Fits pool w →
        ((∃ s, Slot.ofValue pool w = .ok s) ↔ Slot.IsNote pool w) ∧
        (Slot.ofValue pool w).problems = Slot.issues pool w ∧
        (Slot.issues pool w = [] ↔ Slot.IsNote pool w)) ∧
      (¬ Slot.Fits pool w →
        ∃ issues, Slot.ofValue pool w = .error issues ∧ Descriptor.isTooDeep issues = true) := by
  refine ⟨fun hfits => ⟨Part.exists_ofValue_iff hv hfits, fun p => Part.spelled_of_ofValue hv,
    fun entries issues hentries hissues => ⟨(Part.reasoned_ofValue v).ne_nil hissues, ?_⟩,
    Part.ofValue_of_not_dict⟩,
    fun hdeep => Checked.exists_error_of_tooDeep (Part.exists_tooDeep_of_not_fits hv hdeep),
    fun w levels' hw => ⟨fun hfits => ⟨Slot.exists_ofValue_iff hw hfits,
      Slot.problems_ofValue hw hfits, Slot.issues_eq_nil_iff⟩,
      fun hdeep => Checked.exists_error_of_tooDeep (Slot.exists_tooDeep_of_not_fits hw hdeep)⟩⟩
  rw [← Part.problems_ofValue hv hfits hentries, hissues, Checked.problems]

/-- A mapping without an instrument, whose notes stand in the pool. The first is one: its duration,
which is null, is read as a text. The second is no mapping, and the third has no duration and null
among its pitches. -/
theorem grammar_of_part_without_instrument :
    let fine : Value := .dict [(.text "duration", .null), (.text "pitch", .text "c4")]
    let bad : Value := .dict [(.text "pitches", .list [.text "c4", .null])]
    let pool : Pool := ⟨#[.list [fine, .bool true, bad]], maxDepth⟩
    let v : Value := .dict [(.text "notes", .shared 0)]
    let entries : List (Value × Value) := [(.text "notes", .shared 0)]
    let issues : List Issue := [⟨[.name "instrument"], .missing⟩,
      ⟨[.name "notes", .index 1], .notRecord "NoteEntry"⟩,
      ⟨[.name "notes", .index 2, .name "duration"], .missing⟩,
      ⟨[.name "notes", .index 2, .name "pitches", .index 1], .notText⟩]
    v.Simple pool 5 ∧ Part.Fits pool v ∧ Slot.IsNote pool fine ∧
      Part.ofValue pool v = .error issues ∧ ¬ Part.IsTrack pool v ∧
      issues = Part.instrumentIssues entries ++ Part.notesIssues pool entries := by
  intro fine bad pool v entries issues
  have hfine : fine.Simple pool 2 :=
    .dict rfl (List.forall_mem_cons.mpr ⟨.text _, List.forall_mem_singleton.mpr (.text _)⟩)
      (List.forall_mem_cons.mpr ⟨.null, List.forall_mem_singleton.mpr (.text _)⟩)
  have hpitches : Value.Simple pool 2 (.list [.text "c4", .null]) :=
    .list rfl (List.forall_mem_cons.mpr ⟨.text _, List.forall_mem_singleton.mpr .null⟩)
  have hbad : bad.Simple pool 3 :=
    .dict rfl (List.forall_mem_singleton.mpr (.text _)) (List.forall_mem_singleton.mpr hpitches)
  have hshared : pool.resolve (.shared 0) = .list [fine, .bool true, bad] := rfl
  have hnotes : Value.Simple pool 4 (.shared 0) :=
    .list hshared (List.forall_mem_cons.mpr
      ⟨hfine.succ, List.forall_mem_cons.mpr ⟨.bool true, List.forall_mem_singleton.mpr hbad⟩⟩)
  have hv : v.Simple pool 5 :=
    .dict rfl (List.forall_mem_singleton.mpr (.text _)) (List.forall_mem_singleton.mpr hnotes)
  have hfits : Slot.Fits pool fine := by
    rintro _ _ ⟨⟩ ⟨⟩
    exact .null
  have hfits' : Part.Fits pool v := by
    rintro _ _ items ⟨⟩ ⟨⟩ hitems w hw
    cases hitems
    fin_cases hw
    · exact hfits
    · exact fun _ _ h => by cases h
    · rintro _ _ ⟨⟩ ⟨⟩
  obtain ⟨haccepted, -, hnote⟩ := grammar_of_part hv
  obtain ⟨haccepted, -, hrefused, -⟩ := haccepted hfits'
  have hread : Slot.ofValue pool fine = .ok ⟨"None", .single "c4"⟩ := by cbv
  have hissues : Part.ofValue pool v = .error issues := by
    simp only [issues]
    cbv
  obtain ⟨-, hspelled⟩ := hrefused entries issues rfl hissues
  refine ⟨hv, hfits', ((hnote fine 2 hfine).1 hfits).1.mp ⟨_, hread⟩, hissues, fun htrack => ?_,
    hspelled⟩
  obtain ⟨p, hp⟩ := haccepted.mpr htrack
  rw [hissues] at hp
  cases hp

/-- A track of one note whose duration is an empty list inside a number of lists. -/
def nestedTrack (n : Nat) : Value := .dict [(.text "instrument", .text "keys"),
  (.text "notes", .list [.dict [(.text "duration", Value.nested n), (.text "pitch", .text "c4")]])]

/-- However deep its duration is, a nested track has all that a part needs. -/
theorem isTrack_nestedTrack (pool : Pool) (n : Nat) : Part.IsTrack pool (nestedTrack n) := by
  refine ⟨_, rfl, ⟨"keys", rfl⟩, ?_⟩
  rintro _ ⟨⟩
  refine ⟨_, rfl, List.forall_mem_singleton.mpr ⟨_, rfl, ?_⟩⟩
  refine ⟨rfl, ?_, nofun, nofun⟩
  rintro _ ⟨⟩
  exact ⟨"c4", rfl⟩

/-- A nested track is simple, with a level for each of the nested lists. -/
theorem simple_nestedTrack (pool : Pool) (n : Nat) : (nestedTrack n).Simple pool (n + 4) := by
  have hduration : Value.Simple pool (n + 1) (Value.nested n) :=
    Value.simple_nested_iff.mpr (Nat.lt_succ_self n)
  have hnote : Value.Simple pool (n + 2)
      (.dict [(.text "duration", Value.nested n), (.text "pitch", .text "c4")]) :=
    .dict rfl (List.forall_mem_cons.mpr ⟨.text _, List.forall_mem_singleton.mpr (.text _)⟩)
      (List.forall_mem_cons.mpr ⟨hduration, List.forall_mem_singleton.mpr (.text _)⟩)
  exact .dict rfl (List.forall_mem_cons.mpr ⟨.text _, List.forall_mem_singleton.mpr (.text _)⟩)
    (List.forall_mem_cons.mpr ⟨.text _, List.forall_mem_singleton.mpr
      (.list rfl (List.forall_mem_singleton.mpr hnote))⟩)

/-- A track that has all that a part needs is not accepted if its duration is a thousand lists one
inside the other. -/
theorem not_forall_accepted_of_nested :
    ¬ ∀ (v : Value) (levels : Nat), v.Simple .empty levels →
      ((∃ p, Part.ofValue .empty v = .ok p) ↔ Part.IsTrack .empty v) := by
  intro h
  have haccepted := (h _ _ (simple_nestedTrack .empty 1000)).mpr (isTrack_nestedTrack .empty 1000)
  have hfits : ¬ Part.Fits .empty (nestedTrack 1000) := by
    intro hfits
    have hduration := hfits _ _ _ rfl rfl rfl _ List.mem_cons_self _ _ rfl rfl
    exact absurd (Value.simple_nested_iff.mp hduration) (by decide)
  obtain ⟨issues, hissues, -⟩ := Checked.exists_error_of_tooDeep
    (Part.exists_tooDeep_of_not_fits (simple_nestedTrack .empty 1000) hfits)
  obtain ⟨p, hp⟩ := haccepted
  rw [hissues] at hp
  cases hp

end Ostinato

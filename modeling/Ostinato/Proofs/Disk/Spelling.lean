import Mathlib
import Ostinato.Disk.Descriptor
import Ostinato.Part
import Ostinato.Proofs.Instrument.Basic
import Ostinato.Proofs.Table

/-!
# Spellings

Definitions and parts are written in one of the many ways in which they can be read: absent fields
are left out, every field has one name, and numbers and codes stand for themselves. What is written
is read as the same definition or part, so whatever has been read once is written in its normal
form. `spelling_is_normal` says so.
-/

namespace Ostinato

variable {pool : Pool} {v : Value}

/-! ## Tables of pitches -/

namespace Value

/-- A table with texts for its keys has no key twice. -/
theorem asTextDict_nodup {α : Type} {read : Value → Checked α} {table : List (Text × α)}
    (h : asTextDict pool read v = .ok table) : (table.map Prod.fst).Nodup := by
  rw [asTextDict] at h
  split at h
  next entries _ =>
    obtain ⟨all, -, rfl⟩ := map_eq_ok_iff.mp h
    exact nodup_keys_distinctEntries all
  next => cases h

end Value

/-- A pitch table is read as it is written. -/
theorem Definition.asTextDict_pitchMapValue {table : List (Text × Int)}
    (hkeys : (table.map Prod.fst).Nodup) (hrange : ∀ e ∈ table, 0 ≤ e.2 ∧ e.2 ≤ 127) :
    Value.asTextDict pool (Value.asIntegerIn 0 127) (pitchMapValue table) = .ok table := by
  have hentries : Value.textEntries (Value.asIntegerIn 0 127)
      (table.map fun e => (.text e.1, .int e.2)) = .ok table := by
    clear hkeys
    induction table with
    | nil => rfl
    | cons e table ih =>
      have hvalue := Value.asIntegerIn_int_eq_ok_iff.mpr
        ⟨hrange e List.mem_cons_self, rfl⟩
      rw [List.map_cons, Value.textEntries, hvalue,
        ih fun e' he' => hrange e' (List.mem_cons_of_mem e he')]
      rfl
  have hresolve : pool.resolve (pitchMapValue table)
      = .dict (table.map fun e => (.text e.1, .int e.2)) := rfl
  rw [Value.asTextDict, hresolve]
  dsimp only
  rw [hentries, Except.map, Value.distinctEntries_of_nodup hkeys]

/-! ## Definitions -/

/-- A definition that a document can spell: its numbers are in range, and its table has each token
once. -/
structure Definition.Readable (d : Definition) : Prop extends d.Valid where
  nodup : ∀ table ∈ d.pitchMap, (table.map Prod.fst).Nodup

/-- A definition that is read from a value can be written so as to be read again. -/
theorem Definition.readable_of_ofValue {d : Definition} (h : Definition.ofValue pool v = .ok d) :
    d.Readable := by
  refine ⟨Definition.valid_of_ofValue h, ?_⟩
  obtain ⟨entries, -, hfields⟩ := Checked.andThen_eq_ok_iff.mp h
  obtain ⟨type, ⟨program, pitchMap⟩, -, hrest, rfl⟩ := Checked.both_eq_ok_iff.mp hfields
  obtain ⟨_, _, -, hpitchMap, heq⟩ := Checked.both_eq_ok_iff.mp hrest
  cases heq
  rintro table rfl
  obtain hnone | ⟨w, hw⟩ := Value.exists_of_optional hpitchMap
  · cases hnone
  · exact Value.asTextDict_nodup (Value.exists_of_asOptional hw)

/-- A definition is read as it is written. -/
theorem Definition.ofValue_toValue {d : Definition} (hd : d.Readable) (pool : Pool) :
    Definition.ofValue pool d.toValue = .ok d := by
  obtain ⟨type, program, pitchMap⟩ := d
  let entries : List (Value × Value) :=
    ((.text "type", .text type) :: (program.toList.map fun p => (.text "program", .int p))) ++
      (pitchMap.toList.map fun table => (.text "pitchMap", pitchMapValue table))
  have hprogram : Value.optional (Value.asOptional (Value.asIntegerIn 1 128)) none entries
      ["program"] = .ok program := by
    cases program with
    | none => cases pitchMap <;> rfl
    | some p =>
      have hp : Value.asIntegerIn 1 128 (.int p) = .ok p :=
        Value.asIntegerIn_int_eq_ok_iff.mpr ⟨⟨hd.program_ge p rfl, hd.program_le p rfl⟩, rfl⟩
      exact Value.optional_eq_ok_iff.mpr (.inr ⟨.int p, rfl, congrArg (Except.map some) hp⟩)
  have hpitchMap : Value.optional (Value.asOptional (Value.asTextDict pool
      (Value.asIntegerIn 0 127))) none entries ["pitchMap", "pitch_map"] = .ok pitchMap := by
    cases pitchMap with
    | none => cases program <;> rfl
    | some table =>
      have htable : Value.asTextDict pool (Value.asIntegerIn 0 127) (pitchMapValue table)
          = .ok table :=
        asTextDict_pitchMapValue (hd.nodup table rfl) fun e he =>
          ⟨hd.pitch_nonneg table rfl e he, hd.pitch_le table rfl e he⟩
      have hfound : Value.lookup "pitchMap" entries = some (pitchMapValue table) := by
        cases program <;> rfl
      rw [Value.optional, hfound]
      exact Checked.under_eq_ok_iff.mpr (congrArg (Except.map some) htable)
  refine Checked.both_eq_ok_iff.mpr ⟨type, (program, pitchMap), rfl, ?_, rfl⟩
  exact Checked.both_eq_ok_iff.mpr ⟨program, pitchMap, hprogram, hpitchMap, rfl⟩

/-! ## Parts -/

/-- A list of elements that are read as they are written is read as it is written. -/
theorem Value.asList_map {α : Type} {read : Value → Checked α} (write : α → Value)
    (h : ∀ a, read (write a) = .ok a) (as : List α) (pool : Pool) :
    Value.asList pool read (.list (as.map write)) = .ok as :=
  Value.elementsFrom_eq_ok_iff.mpr
    (List.forall₂_map_left_iff.mpr (List.forall₂_same.mpr fun a _ => h a))

/-- A slot is read as it is written. -/
theorem Slot.ofValue_toValue (s : Slot) (pool : Pool) : Slot.ofValue pool s.toValue = .ok s := by
  obtain ⟨duration, sound⟩ := s
  cases sound with
  | single token => rfl
  | chord tokens =>
    let entries : List (Value × Value) :=
      [(.text "duration", .text duration), (.text "pitches", .list (tokens.map .text))]
    have htokens : Value.asList pool Value.asText (.list (tokens.map .text)) = .ok tokens :=
      Value.asList_map .text (fun _ => rfl) tokens pool
    have hpitches : Value.optional (Value.asOptional (Value.asList pool Value.asText)) none entries
        ["pitches"] = .ok (some tokens) :=
      Value.optional_eq_ok_iff.mpr (.inr ⟨_, rfl, congrArg (Except.map some) htokens⟩)
    refine Checked.andThen_eq_ok_iff.mpr ⟨entries, rfl, ?_⟩
    refine Checked.andThen_eq_ok_iff.mpr ⟨(duration, none, some tokens), ?_, rfl⟩
    refine Checked.both_eq_ok_iff.mpr ⟨duration, (none, some tokens), rfl, ?_, rfl⟩
    exact Checked.both_eq_ok_iff.mpr ⟨none, some tokens, rfl, hpitches, rfl⟩

/-- A part is read as it is written, whether it has been read before or not. -/
theorem Part.ofValue_toValue (p : Part) (pool : Pool) : Part.ofValue pool p.toValue = .ok p := by
  obtain ⟨instrument, slots⟩ := p
  have hnotes : Value.asList pool (Slot.ofValue pool) (.list (slots.map Slot.toValue))
      = .ok slots :=
    Value.asList_map Slot.toValue (fun s => Slot.ofValue_toValue s pool) slots pool
  exact Checked.both_eq_ok_iff.mpr ⟨instrument, slots, rfl,
    Value.optional_eq_ok_iff.mpr (.inr ⟨_, rfl, hnotes⟩), rfl⟩

/-! ## Normal forms -/

/-- The spelling of what a value is read as. -/
def Definition.normalize (pool : Pool) (v : Value) : Checked Value :=
  (Definition.ofValue pool v).map Definition.toValue

/-- The spelling of what a value is read as. -/
def Part.normalize (pool : Pool) (v : Value) : Checked Value :=
  (Part.ofValue pool v).map Part.toValue

/-- What stands alone in a document is checked under its key. -/
theorem Descriptor.entry_eq_ok {α : Type} {key : String} {check : Pool → Value → Checked α}
    {a : α} (h : check pool v = .ok a) :
    Descriptor.entry key check ⟨.dict [(.text key, v)], pool⟩ = .ok a := by
  have hlookup : Value.lookup key [(.text key, v)] = some v := if_pos rfl
  simp only [Descriptor.entry, Pool.resolve, hlookup, h]

/-- Descriptors are written in their normal form. Whatever has been read as a definition is written
so that it is read as the same definition again, in a document of its own and wherever else: with
the same table in the same order, and so as percussion or not as before. Parts are read again as the
same parts, slot by slot. Both are written the same way the second time. -/
theorem spelling_is_normal :
    (∀ (pool : Pool) (v : Value) (d : Definition), Definition.ofValue pool v = .ok d →
      ∀ pool' : Pool, Definition.ofValue pool' d.toValue = .ok d ∧
        Descriptor.entry "instrument" Definition.ofValue ⟨d.toDocument, pool'⟩ = .ok d ∧
        Definition.normalize pool v = .ok d.toValue ∧
        Definition.normalize pool' d.toValue = .ok d.toValue) ∧
    ∀ (pool : Pool) (v : Value) (p : Part), Part.ofValue pool v = .ok p →
      ∀ pool' : Pool, Part.ofValue pool' p.toValue = .ok p ∧
        Descriptor.entry "track" Part.ofValue ⟨p.toDocument, pool'⟩ = .ok p ∧
        Part.normalize pool v = .ok p.toValue ∧ Part.normalize pool' p.toValue = .ok p.toValue := by
  constructor
  · intro pool v d hd pool'
    have hread := Definition.ofValue_toValue (Definition.readable_of_ofValue hd) pool'
    refine ⟨hread, Descriptor.entry_eq_ok hread, ?_, ?_⟩
    · rw [Definition.normalize, hd, Except.map]
    · rw [Definition.normalize, hread, Except.map]
  · intro pool v p hp pool'
    have hread := Part.ofValue_toValue p pool'
    refine ⟨hread, Descriptor.entry_eq_ok hread, ?_, ?_⟩
    · rw [Part.normalize, hp, Except.map]
    · rw [Part.normalize, hread, Except.map]

/-- A definition under long names, with numbers that are none and a field that no one asks for, and
a part with a rest that is spelled at length. -/
theorem spelling_is_normal_of_long_names :
    let kit : Value := .dict [
      (.text "pitch_map", .dict [(.text "x", .text " 36 "), (.text "k", .bool true)]),
      (.text "instrument_type", .text "drums"), (.text "program", .null), (.text "made", .int 9)]
    let rest : Value := .dict [
      (.text "duration", .text "4"), (.text "pitch", .null), (.text "pitches", .list [])]
    let beat : Value := .dict [(.text "instrument", .text "drums"), (.text "notes", .list [rest])]
    ∃ d p, d.isPercussion = true ∧ d = ⟨"drums", none, some [("x", 36), ("k", 1)]⟩ ∧
      p = ⟨"drums", [⟨"4", .chord []⟩]⟩ ∧
      Definition.ofValue .empty kit = .ok d ∧ Definition.ofValue .empty d.toValue = .ok d ∧
      Definition.normalize .empty d.toValue = Definition.normalize .empty kit ∧
      Part.ofValue .empty beat = .ok p ∧ Part.ofValue .empty p.toValue = .ok p ∧
      Part.normalize .empty p.toValue = Part.normalize .empty beat := by
  intro kit rest beat
  have hkit : Definition.ofValue .empty kit
      = .ok ⟨"drums", none, some [("x", 36), ("k", 1)]⟩ := by cbv
  have hbeat : Part.ofValue .empty beat = .ok ⟨"drums", [⟨"4", .chord []⟩]⟩ := by cbv
  obtain ⟨hdefinition, hpart⟩ := spelling_is_normal
  obtain ⟨hkit', -, hnormal, hagain⟩ := hdefinition .empty kit _ hkit .empty
  obtain ⟨hbeat', -, hnormal', hagain'⟩ := hpart .empty beat _ hbeat .empty
  exact ⟨_, _, rfl, rfl, rfl, hkit, hkit', hagain.trans hnormal.symm, hbeat, hbeat',
    hagain'.trans hnormal'.symm⟩

end Ostinato

import Mathlib.Tactic.Linarith
import Ostinato.Instrument.Basic
import Ostinato.Proofs.Check.Read
import Ostinato.Proofs.Table
import Ostinato.Score.Basic

/-!
# Note numbers of instruments

A definition that passes its check has a program from 1 to 128 and a table of note numbers. From
there, and from the formula for melodic tokens, whose greatest value is the greatest note number,
`Instrument.bounds_of_resolvePitch` says that an instrument never plays a note number out of range.
-/

namespace Ostinato

/-! ## Definitions -/

/-- A definition with numbers in range. -/
structure Definition.Valid (d : Definition) : Prop where
  program_ge : ∀ p ∈ d.program, 1 ≤ p
  program_le : ∀ p ∈ d.program, p ≤ 128
  pitch_nonneg : ∀ table ∈ d.pitchMap, ∀ e ∈ table, 0 ≤ e.2
  pitch_le : ∀ table ∈ d.pitchMap, ∀ e ∈ table, e.2 ≤ maxData

/-- A definition that passes its check is in range. -/
theorem Definition.valid_of_ofValue {pool : Pool} {v : Value} {d : Definition}
    (h : Definition.ofValue pool v = .ok d) : d.Valid := by
  obtain ⟨entries, -, hfields⟩ := Checked.andThen_eq_ok_iff.mp h
  obtain ⟨type, ⟨program, pitchMap⟩, -, hrest, rfl⟩ := Checked.both_eq_ok_iff.mp hfields
  obtain ⟨program', pitchMap', hprogram, hpitchMap, heq⟩ := Checked.both_eq_ok_iff.mp hrest
  cases heq
  have hprograms : ∀ p ∈ program, 1 ≤ p ∧ p ≤ 128 := by
    rintro p rfl
    obtain hnone | ⟨w, hw⟩ := Value.exists_of_optional hprogram
    · cases hnone
    · exact Value.bounds_of_asIntegerIn (Value.exists_of_asOptional hw)
  have hpitches : ∀ table ∈ pitchMap, ∀ e ∈ table, 0 ≤ e.2 ∧ e.2 ≤ 127 := by
    rintro table rfl e he
    obtain hnone | ⟨w, hw⟩ := Value.exists_of_optional hpitchMap
    · cases hnone
    · obtain ⟨v', hv'⟩ := Value.exists_of_mem_asTextDict (Value.exists_of_asOptional hw) he
      exact Value.bounds_of_asIntegerIn hv'
  exact ⟨fun p hp => (hprograms p hp).1, fun p hp => (hprograms p hp).2,
    fun table htable e he => (hpitches table htable e he).1,
    fun table htable e he => (hpitches table htable e he).2⟩

/-! ## The formula -/

namespace Pitching

/-- A melodic token is a letter of the table and an octave digit, with nothing between them. -/
theorem exists_of_formula? {token : Text} {n : Int} (h : formula? token = some n) :
    ∃ letter digit semitones, token.chars = [letter, digit] ∧ digit.isDigit = true ∧
      (letter, semitones) ∈ letterSemitones ∧
      n = ((digit.toNat - 0x30 + 1 : Nat) : Int) * 12 + semitones := by
  simp only [formula?] at h
  split at h
  next letter rest digit hchars hlast =>
    split_ifs at h with hshape
    split at h
    next semitones shift hletter haccidental =>
      cases h
      have hmem : (letter, semitones) ∈ letterSemitones := mem_of_lookup hletter
      -- the only accidental is none at all, so the digit comes right behind the letter
      have hnone : rest.dropLast = [] ∧ shift = 0 := by
        rw [accidentalSemitones, List.lookup_cons] at haccidental
        split at haccidental
        next heq => exact ⟨eq_of_beq heq, by cases haccidental; rfl⟩
        next => cases haccidental
      rw [not_or, not_not] at hshape
      obtain ⟨hrest, hdigit⟩ := hshape
      obtain ⟨last, rfl⟩ : ∃ last, rest = [last] := by
        cases rest with
        | nil => exact absurd rfl hrest
        | cons last more =>
          cases more with
          | nil => exact ⟨last, rfl⟩
          | cons c cs => cases hnone.1
      obtain rfl : last = digit := by
        rw [hchars] at hlast
        exact Option.some.inj hlast
      exact ⟨letter, last, semitones, hchars, hdigit, hmem, by rw [hnone.2, add_zero]⟩
    next => cases h
  next => cases h

/-- The formula reaches up to the greatest note number, and not beyond. -/
theorem bounds_of_formula? {token : Text} {n : Int} (h : formula? token = some n) :
    12 ≤ n ∧ n ≤ maxData := by
  obtain ⟨letter, digit, semitones, -, hdigit, hletter, rfl⟩ := exists_of_formula? h
  have hsemitones : 0 ≤ semitones ∧ semitones ≤ 7 := by
    simp only [letterSemitones, List.mem_cons, Prod.mk.injEq, List.not_mem_nil, or_false] at hletter
    omega
  have hoctave : digit.toNat ≤ 0x39 := by
    simp only [Char.isDigit, Bool.and_eq_true, decide_eq_true_eq] at hdigit
    exact UInt32.le_iff_toNat_le.mp hdigit.2
  rw [maxData]
  omega

end Pitching

/-! ## Instruments -/

/-- An instrument plays what its strategy finds. -/
theorem Instrument.resolvePitch_eq_ok_iff {i : Instrument} {token : Text} {n : Int} :
    i.resolvePitch token = .ok n ↔ i.pitching.resolve? token = some n := by
  rw [Instrument.resolvePitch, Pitching.resolve]
  cases i.pitching.resolve? token <;> simp

/-- What an instrument plays is a note number. -/
theorem Instrument.bounds_of_resolvePitch {i : Instrument} (hi : i.definition.Valid) {token : Text}
    {n : Int} (h : i.resolvePitch token = .ok n) : 0 ≤ n ∧ n ≤ maxData := by
  have hfound := Instrument.resolvePitch_eq_ok_iff.mp h
  rw [Instrument.pitching] at hfound
  cases hmap : i.definition.pitchMap with
  | none =>
    rw [hmap] at hfound
    obtain ⟨hge, hle⟩ := Pitching.bounds_of_formula? hfound
    exact ⟨by omega, hle⟩
  | some table =>
    rw [hmap] at hfound
    have hmem : (token, n) ∈ table := mem_of_lookup hfound
    exact ⟨hi.pitch_nonneg table hmap (token, n) hmem, hi.pitch_le table hmap (token, n) hmem⟩

end Ostinato

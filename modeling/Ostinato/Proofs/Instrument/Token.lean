import Ostinato.Proofs.Disk.Spelling
import Ostinato.Proofs.Score.Failure

/-!
# Tokens that sound

Which tokens an instrument accepts and what it plays for them. The formula accepts a token exactly
if it is one of three letters and the digit of an octave (`Pitching.formula?_eq_some_iff`), and no
two such tokens have one note number (`IsMelodic.token_eq`). A table accepts its keys and nothing
else. The main result, `Instrument.resolvePitch_by_strategy`, is that each instrument goes by one of
the two, and refuses every other token by naming it and its own type.
-/

namespace Ostinato

/-! ## Characters of a token -/

/-- Only a half of a surrogate pair is shown as the replacement character. -/
theorem CodePoint.eq_char_of_ne {p : CodePoint} (h : p.toChar ≠ '\ufffd') : p = .char p.toChar := by
  cases p with
  | char c => rfl
  | half n => exact absurd rfl h

/-- A text without the replacement character is spelled by its characters. -/
theorem Text.eq_ofChars {t : Text} {cs : List Char} (h : t.chars = cs) (hcs : '\ufffd' ∉ cs) :
    t = .ofChars cs := by
  obtain ⟨points⟩ := t
  subst h
  have hpoints : ∀ p ∈ points, p = .char p.toChar := fun p hp =>
    CodePoint.eq_char_of_ne fun hchar => hcs (hchar ▸ List.mem_map_of_mem hp)
  rw [ofChars, Text.mk.injEq, chars, List.map_map]
  exact (List.map_id points).symm.trans (List.map_congr_left hpoints)

/-- An ASCII digit is the digit of some number below ten. -/
theorem exists_digitChar {c : Char} (h : c.isDigit = true) :
    ∃ n : Fin 10, c = Nat.digitChar n ∧ c.toNat - 0x30 = n := by
  obtain ⟨hge, hle⟩ := Char.isDigit_iff_toNat.mp h
  have hge' : 0x30 ≤ c.toNat := hge
  have hle' : c.toNat ≤ 0x39 := hle
  refine ⟨⟨c.toNat - 0x30, by omega⟩, Char.toNat_inj.mp ?_, rfl⟩
  rw [Nat.toNat_digitChar_of_lt_ten (by omega)]
  exact (Nat.add_sub_cancel' hge').symm

/-! ## Melodic tokens -/

/-- The letters that melodic instruments know, with their semitones above the start of an octave. -/
inductive IsLetter : Char → Int → Prop
  | c : IsLetter 'c' 0
  | e : IsLetter 'e' 4
  | g : IsLetter 'g' 7

/-- A token of two characters, a letter and the digit of an octave, and its note number. -/
inductive IsMelodic : Text → Int → Prop
  | intro {letter : Char} {semitones : Int} (h : IsLetter letter semitones) (octave : Fin 10) :
    IsMelodic (.ofChars [letter, Nat.digitChar octave]) (12 * (octave + 1) + semitones)

variable {token token' : Text} {n : Int}

/-- A letter with its semitones is one of the table. -/
theorem isLetter_iff {letter : Char} {semitones : Int} :
    IsLetter letter semitones ↔ (letter, semitones) ∈ letterSemitones := by
  simp only [letterSemitones, List.mem_cons, Prod.mk.injEq, List.not_mem_nil, or_false]
  constructor
  · rintro (_ | _ | _) <;> simp
  · rintro (⟨rfl, rfl⟩ | ⟨rfl, rfl⟩ | ⟨rfl, rfl⟩)
    exacts [.c, .e, .g]

/-- Letters name pitches within less than an octave. -/
theorem IsLetter.bounds {letter : Char} {semitones : Int} (h : IsLetter letter semitones) :
    0 ≤ semitones ∧ semitones ≤ 7 := by
  cases h <;> decide

/-- Letters with the same semitones are one letter. -/
theorem IsLetter.letter_eq {letter letter' : Char} {semitones : Int} (h : IsLetter letter semitones)
    (h' : IsLetter letter' semitones) : letter = letter' := by
  cases h <;> cases h' <;> rfl

/-- From the lowest `c` to the highest `g`, which has the greatest note number. -/
theorem IsMelodic.bounds (h : IsMelodic token n) : 12 ≤ n ∧ n ≤ maxData := by
  obtain ⟨hletter, octave⟩ := h
  obtain ⟨hge, hle⟩ := hletter.bounds
  rw [maxData]
  omega

/-- Octaves do not overlap, so no two tokens have one note number. -/
theorem IsMelodic.token_eq (h : IsMelodic token n) (h' : IsMelodic token' n) : token = token' := by
  obtain ⟨hletter, octave⟩ := h
  generalize hn : 12 * ((octave : Nat) + 1 : Int) + _ = n at h'
  obtain ⟨hletter', octave'⟩ := h'
  obtain ⟨hge, hle⟩ := hletter.bounds
  obtain ⟨hge', hle'⟩ := hletter'.bounds
  obtain rfl : octave = octave' := by omega
  obtain rfl := Int.add_left_cancel hn
  rw [hletter.letter_eq hletter']

/-- The formula accepts a token if it is a letter of the table and an octave. -/
theorem Pitching.formula?_eq_some_iff : formula? token = some n ↔ IsMelodic token n := by
  constructor
  · intro h
    obtain ⟨letter, digit, semitones, hchars, hdigit, hmem, rfl⟩ := exists_of_formula? h
    have hletter := isLetter_iff.mpr hmem
    have hplain : '\ufffd' ∉ [letter, digit] := by
      rw [List.mem_pair]
      rintro (rfl | rfl)
      · cases hletter
      · exact absurd hdigit (by decide)
    obtain ⟨octave, rfl, hoctave⟩ := exists_digitChar hdigit
    have hn : ((Nat.digitChar octave).toNat - 0x30 + 1 : Nat) * 12 + semitones
        = 12 * (octave + 1 : Int) + semitones := by
      rw [hoctave]
      push_cast
      ring
    rw [hn, Text.eq_ofChars hchars hplain]
    exact .intro hletter octave
  · rintro ⟨hletter, octave⟩
    revert octave
    cases hletter <;> decide

/-! ## Instruments -/

namespace Instrument

variable {i : Instrument}

/-- An instrument without a table goes by the formula alone. -/
theorem resolvePitch_eq_ok_iff_isMelodic (h : i.definition.pitchMap = none) :
    i.resolvePitch token = .ok n ↔ IsMelodic token n := by
  rw [resolvePitch_eq_ok_iff, pitching, h]
  exact Pitching.formula?_eq_some_iff

/-- An instrument with a table, even an empty one, goes by the table alone. -/
theorem resolvePitch_eq_ok_iff_mem {table : List (Text × Int)}
    (h : i.definition.pitchMap = some table) (hkeys : (table.map Prod.fst).Nodup) :
    i.resolvePitch token = .ok n ↔ (token, n) ∈ table := by
  rw [resolvePitch_eq_ok_iff, pitching, h]
  exact lookup_eq_some_iff_mem hkeys

/-- What is not accepted is refused by name. -/
theorem resolvePitch_ok_or_refused (i : Instrument) (token : Text) :
    (∃ n, i.resolvePitch token = .ok n) ∨ i.resolvePitch token = .error ⟨token, some i.type⟩ := by
  cases hresolve : i.resolvePitch token with
  | ok n => exact .inl ⟨n, rfl⟩
  | error fault => exact .inr (congrArg _ (resolvePitch_eq_error_iff.mp hresolve).2)

/-- An instrument with a definition that passes its check accepts, without a table, just the tokens
of a letter and an octave, and gives each a note number of its own from 12 up. With a table it
accepts the keys of the table and nothing else, and gives what stands under them. All other tokens
are refused with the token as it is and the type of the instrument. -/
theorem resolvePitch_by_strategy {pool : Pool} {v : Value}
    (hi : Definition.ofValue pool v = .ok i.definition) :
    (i.definition.pitchMap = none →
      (∀ token n, i.resolvePitch token = .ok n ↔ IsMelodic token n) ∧
      (∀ token n, i.resolvePitch token = .ok n → 12 ≤ n ∧ n ≤ 127) ∧
      ∀ token token' n, i.resolvePitch token = .ok n → i.resolvePitch token' = .ok n →
        token = token') ∧
    (∀ table, i.definition.pitchMap = some table →
      (∀ token, (∃ n, i.resolvePitch token = .ok n) ↔ token ∈ table.map Prod.fst) ∧
      (∀ token n, i.resolvePitch token = .ok n ↔ (token, n) ∈ table) ∧
      ∀ token n, i.resolvePitch token = .ok n → 0 ≤ n ∧ n ≤ 127) ∧
    ∀ token, (∃ n, i.resolvePitch token = .ok n) ∨
      i.resolvePitch token = .error ⟨token, some i.type⟩ := by
  have hreadable := Definition.readable_of_ofValue hi
  refine ⟨fun hnone => ?formula, fun table htable => ?table, resolvePitch_ok_or_refused i⟩
  case formula =>
    have haccepts : ∀ token n, i.resolvePitch token = .ok n ↔ IsMelodic token n :=
      fun _ _ => resolvePitch_eq_ok_iff_isMelodic hnone
    refine ⟨haccepts, fun token n h => ((haccepts token n).mp h).bounds, ?_⟩
    exact fun token token' n h h' =>
      ((haccepts token n).mp h).token_eq ((haccepts token' n).mp h')
  case table =>
    have haccepts : ∀ token n, i.resolvePitch token = .ok n ↔ (token, n) ∈ table :=
      fun _ _ => resolvePitch_eq_ok_iff_mem htable (hreadable.nodup table htable)
    refine ⟨fun token => ?_, haccepts, fun token n h => bounds_of_resolvePitch hreadable.toValid h⟩
    simp only [haccepts, List.mem_map, Prod.exists, exists_and_right, exists_eq_right]

/-- The highest token of a melodic instrument, and two that only look like tokens: one has the zero
of another script, one an accidental. A drum kit has a `c4` of its own and no `e4`, and one with an
empty table has neither. -/
theorem resolvePitch_by_strategy_of_kits :
    let keys : Instrument := ⟨"keys", ⟨"piano", some 1, none⟩⟩
    let kit : Instrument := ⟨"kit", ⟨"drums", some 1, some [("c4", 36)]⟩⟩
    let mute : Instrument := ⟨"mute", ⟨"rest", none, some []⟩⟩
    keys.resolvePitch "g9" = .ok 127 ∧
    keys.resolvePitch "c٠" = .error ⟨"c٠", some "piano"⟩ ∧
    keys.resolvePitch "c#4" = .error ⟨"c#4", some "piano"⟩ ∧
    kit.resolvePitch "c4" = .ok 36 ∧ kit.resolvePitch "e4" = .error ⟨"e4", some "drums"⟩ ∧
    mute.resolvePitch "c4" = .error ⟨"c4", some "rest"⟩ := by
  intro keys kit mute
  have hkeys : Definition.ofValue .empty (.dict [(.text "type", .text "piano"),
      (.text "program", .int 1)]) = .ok keys.definition := by cbv
  have hkit : Definition.ofValue .empty (.dict [(.text "type", .text "drums"),
      (.text "program", .int 1), (.text "pitchMap", .dict [(.text "c4", .int 36)])])
        = .ok kit.definition := by cbv
  have hmute : Definition.ofValue .empty (.dict [(.text "type", .text "rest"),
      (.text "pitchMap", .dict [])]) = .ok mute.definition := by cbv
  obtain ⟨hformula, -, hrefused⟩ := resolvePitch_by_strategy hkeys
  obtain ⟨-, htable, hrefused'⟩ := resolvePitch_by_strategy hkit
  obtain ⟨-, htable', hrefused''⟩ := resolvePitch_by_strategy hmute
  obtain ⟨hmelodic, -⟩ := hformula rfl
  obtain ⟨hentry, hentries, -⟩ := htable _ rfl
  obtain ⟨hnoEntry, -⟩ := htable' _ rfl
  have hzero : Pitching.formula? "c٠" = none := by cbv
  have hsharp : Pitching.formula? "c#4" = none := by cbv
  refine ⟨(hmelodic _ _).mpr (.intro .g 9), (hrefused _).resolve_left ?_,
    (hrefused _).resolve_left ?_, (hentries _ _).mpr List.mem_cons_self,
    (hrefused' _).resolve_left ?_, (hrefused'' _).resolve_left ?_⟩
  · rintro ⟨n, h⟩
    cases hzero.symm.trans (Pitching.formula?_eq_some_iff.mpr ((hmelodic _ n).mp h))
  · rintro ⟨n, h⟩
    cases hsharp.symm.trans (Pitching.formula?_eq_some_iff.mpr ((hmelodic _ n).mp h))
  · rw [hentry]
    decide
  · rw [hnoEntry]
    decide

end Instrument

end Ostinato

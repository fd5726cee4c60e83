import Ostinato.Proofs.Score.Range

/-!
# Parts that cannot be laid out

What makes a slot unplayable is said here without a time line: a code that is not in the table, or
a token that the instrument does not know. `Slot.Blames` says which of the two counts. The main
result, `timeline_first_failure`, is that a time line fails exactly as the first slot of the part
that cannot be played, however often the part is repeated.
-/

namespace Ostinato

/-- The codes of the table. -/
def durationCodes : List Text := durationTable.map Prod.fst

/-- Whether an instrument has a note number for a token. -/
def Instrument.Knows (i : Instrument) (token : Text) : Prop :=
  ∃ n, i.pitching.resolve? token = some n

/-- A slot with a code of the table and tokens that an instrument knows. -/
structure Slot.Playable (i : Instrument) (s : Slot) : Prop where
  duration : s.duration ∈ durationCodes
  tokens : ∀ token ∈ s.tokens, i.Knows token

/-- What is to blame where a slot cannot be played. The code counts before the tokens, and of the
tokens the first that is not known; the instrument is named by its type. -/
inductive Slot.Blames (i : Instrument) (s : Slot) : NoteFault → Prop
  | duration (hcode : s.duration ∉ durationCodes) : Blames i s (.duration ⟨.text s.duration⟩)
  | pitch {before after : List Text} {token : Text} (hcode : s.duration ∈ durationCodes)
      (htokens : s.tokens = before ++ token :: after) (hbefore : ∀ t ∈ before, i.Knows t)
      (htoken : ¬ i.Knows token) : Blames i s (.pitch ⟨token, some i.type⟩)

variable {i : Instrument} {s : Slot}

/-! ## Codes -/

/-- A text has no length just if it is no code of the table. -/
theorem codeLength?_eq_none_iff {code : Text} : codeLength? code = none ↔ code ∉ durationCodes := by
  rw [codeLength?, List.lookup_eq_none_iff, durationCodes, List.mem_map]
  simp only [bne_iff_ne, ne_eq, not_exists, not_and]
  exact ⟨fun h e he heq => h e he heq.symm, fun h e he heq => h e he heq.symm⟩

/-- A slot has no length just if its duration is no code of the table, and the fault names it. -/
theorem Slot.length_eq_error_iff {fault : UnknownDuration} :
    s.length = .error fault ↔ s.duration ∉ durationCodes ∧ fault = ⟨.text s.duration⟩ := by
  rw [← codeLength?_eq_none_iff, Slot.length]
  cases codeLength? s.duration with
  | none => simp [eq_comm]
  | some length => simp

/-- A slot has a length just if its duration is a code of the table. -/
theorem Slot.exists_length_iff :
    (∃ length, s.length = .ok length) ↔ s.duration ∈ durationCodes := by
  cases hlength : s.length with
  | error fault => simp [(Slot.length_eq_error_iff.mp hlength).1]
  | ok length =>
    refine ⟨fun _ => ?_, fun _ => ⟨length, rfl⟩⟩
    by_contra hcode
    rw [Slot.length_eq_error_iff.mpr ⟨hcode, rfl⟩] at hlength
    cases hlength

/-! ## Tokens -/

/-- A token is refused just if the instrument does not know it, and the fault names both. -/
theorem Instrument.resolvePitch_eq_error_iff {token : Text} {fault : UnknownPitch} :
    i.resolvePitch token = .error fault ↔ ¬ i.Knows token ∧ fault = ⟨token, some i.type⟩ := by
  rw [Instrument.resolvePitch, Pitching.resolve, Instrument.Knows]
  cases i.pitching.resolve? token with
  | none => simp [UnknownPitch.withInstrument, eq_comm]
  | some n => simp

/-- A token has a pitch just if the instrument knows it. -/
theorem Instrument.exists_resolvePitch_iff {token : Text} :
    (∃ n, i.resolvePitch token = .ok n) ↔ i.Knows token := by
  rw [Instrument.resolvePitch, Pitching.resolve, Instrument.Knows]
  cases i.pitching.resolve? token <;> simp

/-- A token has no pitch on a valid instrument just if the instrument does not know it. -/
theorem Beat.pitchOf_eq_error_iff (hi : i.definition.Valid) {token : Text} {fault : NoteFault} :
    Beat.pitchOf i token = .error fault ↔
      ¬ i.Knows token ∧ fault = .pitch ⟨token, some i.type⟩ := by
  rw [Beat.pitchOf_eq hi]
  cases hp : i.resolvePitch token with
  | ok p =>
    have hknows : i.Knows token := Instrument.exists_resolvePitch_iff.mp ⟨p, hp⟩
    simp [Except.mapError, hknows]
  | error e =>
    obtain ⟨hunknown, rfl⟩ := Instrument.resolvePitch_eq_error_iff.mp hp
    simp [Except.mapError, hunknown, eq_comm]

/-- An instrument knows the tokens that have a pitch on it. -/
theorem Beat.knows_of_pitchOf {token : Text} {p : Int} (h : Beat.pitchOf i token = .ok p) :
    i.Knows token := by
  rw [Beat.pitchOf] at h
  cases hp : i.resolvePitch token with
  | error e => rw [hp] at h; cases h
  | ok p' => exact Instrument.exists_resolvePitch_iff.mp ⟨p', hp⟩

/-! ## Slots -/

/-- A slot fails with the fault that is to blame. -/
theorem Beat.ofSlot_eq_error_iff (hi : i.definition.Valid) {fault : NoteFault} :
    Beat.ofSlot i s = .error fault ↔ s.Blames i fault := by
  constructor
  · intro h
    rw [Beat.ofSlot] at h
    split at h
    next e hlength =>
      cases h
      obtain ⟨hcode, rfl⟩ := Slot.length_eq_error_iff.mp hlength
      exact .duration hcode
    next length hlength =>
      -- the code is known, so the first token that is not known is to blame
      rw [map_eq_error_iff, mapM_eq_error_iff] at h
      obtain ⟨before, token, after, htokens, hbefore, htoken⟩ := h
      obtain ⟨hunknown, rfl⟩ := (Beat.pitchOf_eq_error_iff hi).mp htoken
      refine .pitch (Slot.exists_length_iff.mp ⟨length, hlength⟩) htokens (fun t ht => ?_) hunknown
      obtain ⟨p, hp⟩ := hbefore t ht
      exact Beat.knows_of_pitchOf hp
  · intro h
    rw [Beat.ofSlot]
    cases h with
    | duration hcode => rw [Slot.length_eq_error_iff.mpr ⟨hcode, rfl⟩]
    | @pitch before after token hcode htokens hbefore htoken =>
      obtain ⟨length, hlength⟩ := Slot.exists_length_iff.mpr hcode
      rw [hlength]
      dsimp only
      rw [map_eq_error_iff, mapM_eq_error_iff]
      refine ⟨before, token, after, htokens, fun t ht => ?_,
        (Beat.pitchOf_eq_error_iff hi).mpr ⟨htoken, rfl⟩⟩
      cases hp : Beat.pitchOf i t with
      | ok p => exact ⟨p, rfl⟩
      | error e => exact absurd (hbefore t ht) ((Beat.pitchOf_eq_error_iff hi).mp hp).1

/-- A slot is a beat exactly if it can be played. -/
theorem Beat.exists_ofSlot_iff (hi : i.definition.Valid) :
    (∃ b, Beat.ofSlot i s = .ok b) ↔ s.Playable i := by
  constructor
  · rintro ⟨b, hb⟩
    obtain ⟨hlength, htokens⟩ := Beat.ofSlot_eq_ok_iff.mp hb
    refine ⟨Slot.exists_length_iff.mp ⟨b.length, hlength⟩, fun token htoken => ?_⟩
    obtain ⟨p, hp⟩ := exists_ok_of_mapM htokens htoken
    exact Beat.knows_of_pitchOf hp
  · intro hplayable
    cases hb : Beat.ofSlot i s with
    | ok b => exact ⟨b, rfl⟩
    | error fault =>
      cases (Beat.ofSlot_eq_error_iff hi).mp hb with
      | duration hcode => exact absurd hplayable.duration hcode
      | @pitch before after token hcode htokens hbefore htoken =>
        exact absurd (hplayable.tokens token (htokens ▸ by simp)) htoken

/-- A slot cannot be played just if its duration is no code or some token is not known. -/
theorem Slot.not_playable_iff :
    ¬ s.Playable i ↔ s.duration ∉ durationCodes ∨ ∃ token ∈ s.tokens, ¬ i.Knows token := by
  have hplayable : s.Playable i ↔
      s.duration ∈ durationCodes ∧ ∀ token ∈ s.tokens, i.Knows token :=
    ⟨fun h => ⟨h.duration, h.tokens⟩, fun h => ⟨h.1, h.2⟩⟩
  rw [hplayable, not_and_or]
  simp only [not_forall, exists_prop]

/-! ## Parts -/

/-- A part that is played at all fails as its first slot that is no beat. -/
theorem timeline_eq_error_iff {slots : List Slot} {loops : Int} (hloops : 1 ≤ loops)
    {fault : NoteFault} :
    timeline i slots loops = .error fault ↔ slots.mapM (Beat.ofSlot i) = .error fault :=
  ⟨mapM_of_timeline_error, fun h => timeline_of_error h hloops⟩

/-- The length of a part is the sum of the lengths of its slots, looked up in their order. -/
theorem Part.totalLength_eq (slots : List Slot) :
    Part.totalLength slots = (slots.mapM Slot.length).map List.sum := by
  induction slots with
  | nil => rfl
  | cons s slots ih =>
    rw [Part.totalLength, ih]
    cases hlength : s.length with
    | error e => rw [mapM_cons_error slots hlength]; rfl
    | ok length =>
      rw [mapM_cons_ok slots hlength]
      cases slots.mapM Slot.length <;> rfl

/-- A part has no length just if some duration is no code, and the fault names the first one. -/
theorem Part.totalLength_eq_error_iff {slots : List Slot} {fault : UnknownDuration} :
    Part.totalLength slots = .error fault ↔
      ∃ before s after, slots = before ++ s :: after ∧
        (∀ s' ∈ before, s'.duration ∈ durationCodes) ∧ s.duration ∉ durationCodes ∧
        fault = ⟨.text s.duration⟩ := by
  rw [Part.totalLength_eq, map_eq_error_iff, mapM_eq_error_iff]
  simp only [Slot.exists_length_iff, Slot.length_eq_error_iff]

/-- A part can be laid out exactly if all its slots can be played. -/
theorem exists_mapM_ofSlot_iff (hi : i.definition.Valid) {slots : List Slot} :
    (∃ bs, slots.mapM (Beat.ofSlot i) = .ok bs) ↔ ∀ s ∈ slots, s.Playable i := by
  simp only [exists_mapM_iff, Beat.exists_ofSlot_iff hi]

/-- A part that is played at least once fails just if some slot of it cannot be played. -/
theorem exists_timeline_error_iff (hi : i.definition.Valid) {slots : List Slot} {loops : Int}
    (hloops : 1 ≤ loops) :
    (∃ fault, timeline i slots loops = .error fault) ↔
      ∃ s ∈ slots, s.duration ∉ durationCodes ∨ ∃ token ∈ s.tokens, ¬ i.Knows token := by
  simp only [timeline_eq_error_iff hloops, ← Slot.not_playable_iff]
  have hlaidOut : (∃ bs, slots.mapM (Beat.ofSlot i) = .ok bs) ↔ ∀ s ∈ slots, s.Playable i :=
    exists_mapM_ofSlot_iff hi
  cases hbs : slots.mapM (Beat.ofSlot i) with
  | ok bs =>
    have hplayable := hlaidOut.mp ⟨bs, hbs⟩
    constructor
    · rintro ⟨fault, ⟨⟩⟩
    · rintro ⟨s, hs, hnot⟩
      exact absurd (hplayable s hs) hnot
  | error fault =>
    refine iff_of_true ⟨fault, rfl⟩ ?_
    by_contra hnone
    push Not at hnone
    obtain ⟨bs, hbs'⟩ := hlaidOut.mpr hnone
    rw [hbs] at hbs'
    cases hbs'

/-- When and how a time line fails, for an instrument whose definition has passed its check. A part
that is played at least once fails exactly if one of its slots has a code outside the table or a
token that the instrument does not know. The first such slot is to blame: for its code if that is
unknown, and else for its first unknown token, with the type of the instrument and not its name.
How often the part is played makes no difference; played less than once it has no notes and never
fails. The length of a part fails exactly if a code is unknown, for the first one, and so never if
the part can be played. -/
theorem timeline_first_failure (hi : ∃ pool v, Definition.ofValue pool v = .ok i.definition)
    (slots : List Slot) :
    (∀ loops, 1 ≤ loops →
      ((∃ fault, timeline i slots loops = .error fault) ↔
        ∃ s ∈ slots, s.duration ∉ durationCodes ∨ ∃ token ∈ s.tokens, ¬ i.Knows token) ∧
      (∀ fault, timeline i slots loops = .error fault ↔
        ∃ before s after, slots = before ++ s :: after ∧ (∀ s' ∈ before, s'.Playable i) ∧
          s.Blames i fault) ∧
      ∀ notes, timeline i slots loops = .ok notes →
        ∃ length, Part.totalLength slots = .ok length) ∧
    (∀ loops loops', 1 ≤ loops → 1 ≤ loops' → ∀ fault,
      timeline i slots loops = .error fault ↔ timeline i slots loops' = .error fault) ∧
    (∀ loops ≤ 0, timeline i slots loops = .ok []) ∧
    ((∃ fault, Part.totalLength slots = .error fault) ↔ ∃ s ∈ slots, s.duration ∉ durationCodes) ∧
    ∀ fault, Part.totalLength slots = .error fault ↔
      ∃ before s after, slots = before ++ s :: after ∧
        (∀ s' ∈ before, s'.duration ∈ durationCodes) ∧ s.duration ∉ durationCodes ∧
        fault = ⟨.text s.duration⟩ := by
  obtain ⟨pool, v, hv⟩ := hi
  have hvalid := Definition.valid_of_ofValue hv
  refine ⟨fun loops hloops => ⟨exists_timeline_error_iff hvalid hloops, fun fault => ?first,
    fun notes hnotes => exists_totalLength_of_timeline hnotes hloops⟩,
    fun loops loops' hloops hloops' fault => ?same, fun loops hloops => ?silent, ?length,
    fun fault => Part.totalLength_eq_error_iff⟩
  case first =>
    rw [timeline_eq_error_iff hloops, mapM_eq_error_iff]
    simp only [Beat.exists_ofSlot_iff hvalid, Beat.ofSlot_eq_error_iff hvalid]
  case same => rw [timeline_eq_error_iff hloops, timeline_eq_error_iff hloops']
  case silent =>
    rw [timeline, Int.toNat_of_nonpos hloops]
    rfl
  case length =>
    simp only [Part.totalLength_eq, map_eq_error_iff]
    constructor
    · rintro ⟨fault, hfault⟩
      obtain ⟨s, hs, hlength⟩ := exists_of_mapM_error hfault
      exact ⟨s, hs, (Slot.length_eq_error_iff.mp hlength).1⟩
    · rintro ⟨s, hs, hcode⟩
      cases hlengths : slots.mapM Slot.length with
      | error fault => exact ⟨fault, rfl⟩
      | ok lengths =>
        exact absurd (Slot.exists_length_iff.mp (exists_ok_of_mapM hlengths hs)) hcode

/-- A chord with a token that the piano does not know, in front of a slot with an unknown code. -/
theorem timeline_first_failure_in_chord :
    let piano : Instrument := ⟨"piano", ⟨"keys", some 1, none⟩⟩
    let slots : List Slot :=
      [⟨"4.", .chord []⟩, ⟨"4", .chord ["c4", "h4", "k"]⟩, ⟨"9", .single "c4"⟩]
    Definition.ofValue .empty (.dict [(.text "type", .text "keys"), (.text "program", .int 1)])
        = .ok piano.definition ∧
      timeline piano slots 1 = .error (.pitch ⟨"h4", some "keys"⟩) ∧
      timeline piano slots 7 = .error (.pitch ⟨"h4", some "keys"⟩) ∧
      timeline piano slots (-2) = .ok [] ∧
      Part.totalLength slots = .error ⟨.text "9"⟩ := by
  intro piano slots
  have hdefinition : Definition.ofValue .empty
      (.dict [(.text "type", .text "keys"), (.text "program", .int 1)])
        = .ok piano.definition := by cbv
  have hunknown : ¬ piano.Knows "h4" := by
    rintro ⟨n, hn⟩
    have hnone : piano.pitching.resolve? "h4" = none := by cbv
    rw [hnone] at hn
    cases hn
  obtain ⟨hplayed, hsame, hsilent, -, hlength⟩ :=
    timeline_first_failure (i := piano) ⟨_, _, hdefinition⟩ slots
  have honce : timeline piano slots 1 = .error (.pitch ⟨"h4", some "keys"⟩) := by
    obtain ⟨-, hfirst, -⟩ := hplayed 1 le_rfl
    refine (hfirst _).mpr ⟨[⟨"4.", .chord []⟩], ⟨"4", .chord ["c4", "h4", "k"]⟩, _, rfl, ?_, ?_⟩
    · intro s hs
      rw [List.mem_singleton.mp hs]
      exact ⟨by decide, fun token htoken => absurd htoken List.not_mem_nil⟩
    · refine @Slot.Blames.pitch _ _ ["c4"] ["k"] _ (by decide) rfl (fun t ht => ?_) hunknown
      rw [List.mem_singleton.mp ht]
      exact ⟨60, by cbv⟩
  refine ⟨hdefinition, honce, (hsame 1 7 le_rfl (by decide) _).mp honce, hsilent (-2) (by decide),
    (hlength _).mpr ⟨[⟨"4.", .chord []⟩, ⟨"4", .chord ["c4", "h4", "k"]⟩], ⟨"9", .single "c4"⟩, [],
      rfl, ?_, by decide, rfl⟩⟩
  decide

end Ostinato

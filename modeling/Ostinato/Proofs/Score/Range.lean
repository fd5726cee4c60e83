import Mathlib
import Ostinato.Proofs.Instrument.Basic
import Ostinato.Proofs.Instrument.Ensemble
import Ostinato.Proofs.Midi.SavedFile
import Ostinato.Proofs.Score.Assembly

/-!
# Scores in range

Notes and tracks check their numbers when they are made, and MIDI messages theirs. If definitions
have passed their check, none of these later checks ever fails: what an assembly runs into is always
something that a part asks for and that is not there. The main result is `assemble_in_range`.
-/

namespace Ostinato

/-- Something that a part asks for is missing: its instrument, a channel, a length or a note
number. -/
inductive PartFault.Missing : PartFault → Prop
  | unresolved (type : Text) (source : String) : Missing (.unresolved type source)
  | exhausted (fault : ChannelsExhausted) : Missing (.exhausted fault)
  | duration (fault : UnknownDuration) : Missing (.note (.duration fault))
  | pitch (fault : UnknownPitch) : Missing (.note (.pitch fault))

/-- An ensemble in which only instruments with valid definitions play. -/
def Ensemble.Valid (e : Ensemble) : Prop :=
  ∀ type, ∀ i ∈ e.findByType type, i.definition.Valid

/-- An ensemble of valid instruments is valid. -/
theorem Ensemble.Holds.valid {e : Ensemble} {is : List Instrument} (h : e.Holds is)
    (his : ∀ i ∈ is, i.definition.Valid) : e.Valid :=
  fun _ i hi => his i (h.mem_of_findByType hi).1

variable {e : Ensemble} {i : Instrument} {loops : Int}

/-! ## Notes -/

/-- An instrument with a valid definition plays no note number out of range. -/
theorem Beat.pitchOf_eq (hi : i.definition.Valid) (token : Text) :
    Beat.pitchOf i token = (i.resolvePitch token).mapError NoteFault.pitch := by
  rw [Beat.pitchOf]
  cases hp : i.resolvePitch token with
  | error fault => rfl
  | ok p =>
    obtain ⟨hnonneg, hle⟩ := Instrument.bounds_of_resolvePitch hi hp
    exact if_neg (not_or.mpr ⟨not_lt.mpr hnonneg, not_lt.mpr hle⟩)

/-- A slot fails on a valid instrument only for something that is missing. -/
theorem missing_of_ofSlot_error (hi : i.definition.Valid) {s : Slot} {fault : NoteFault}
    (h : Beat.ofSlot i s = .error fault) : (PartFault.note fault).Missing := by
  rw [Beat.ofSlot] at h
  split at h
  next duration _ =>
    cases h
    exact .duration duration
  next length _ =>
    rw [map_eq_error_iff] at h
    obtain ⟨token, -, htoken⟩ := exists_of_mapM_error h
    rw [Beat.pitchOf_eq hi] at htoken
    cases hp : i.resolvePitch token with
    | error pitch =>
      rw [hp] at htoken
      cases htoken
      exact .pitch pitch
    | ok p => rw [hp] at htoken; cases htoken

/-- A part fails on a valid instrument only for something that is missing. -/
theorem missing_of_timeline_error (hi : i.definition.Valid) {slots : List Slot}
    {fault : NoteFault} (h : timeline i slots loops = .error fault) :
    (PartFault.note fault).Missing := by
  obtain ⟨s, -, hs⟩ := exists_of_mapM_error (mapM_of_timeline_error h)
  exact missing_of_ofSlot_error hi hs

/-- What can be laid out has a length. -/
theorem exists_totalLength_of_timeline {slots : List Slot} {notes : List NoteEvent}
    (h : timeline i slots loops = .ok notes) (hloops : 1 ≤ loops) :
    ∃ length, Part.totalLength slots = .ok length := by
  obtain ⟨bs, hbs⟩ := beats_of_timeline h hloops
  exact ⟨span bs, Part.totalLength_of_beats hbs⟩

/-! ## Seats -/

/-- While there is room, the seat of an instrument with a valid definition is in range: the channel,
since the last one is not passed, and the program, which now counts from 0. -/
theorem make_seatAfter (hi : i.definition.Valid) {taken : Nat}
    (hroom : ¬ (i.takesChannel = true ∧ 15 ≤ taken)) :
    Track.make i.name (i.seatAfter taken).1 (i.seatAfter taken).2
      = .ok ⟨i.name, (i.seatAfter taken).1, (i.seatAfter taken).2, []⟩ := by
  rw [Track.make_eq_ok_iff]
  refine ⟨?_, rfl⟩
  unfold Instrument.takesChannel at hroom
  unfold Instrument.seatAfter
  cases hmap : i.definition.pitchMap with
  | some table =>
    dsimp only
    exact ⟨by decide, by decide, fun p hp => by cases hp⟩
  | none =>
    cases hprogram : i.definition.program with
    | none =>
      dsimp only
      exact ⟨by decide, by decide, fun p hp => by cases hp⟩
    | some program =>
      have hfree : ¬ 15 ≤ taken := fun hfull => hroom ⟨by simp [hmap, hprogram], hfull⟩
      have hle : ¬ maxChannel < melodicChannel taken := by
        rwa [maxChannel_lt_melodicChannel_iff]
      have hnonneg : 0 ≤ melodicChannel taken := by
        unfold melodicChannel
        split_ifs <;> omega
      have hge := hi.program_ge program hprogram
      have hle' := hi.program_le program hprogram
      refine ⟨hnonneg, not_lt.mp hle, fun p hp => ?_⟩
      cases hp
      rw [maxData]
      omega

/-! ## Tracks -/

/-- Whatever becomes a track is in range. -/
theorem valid_of_trackAfter {taken : Nat} {source : String} {part : Part} {t : Track}
    (h : trackAfter e loops taken source part = .ok t) : t.Valid := by
  simp only [trackAfter] at h
  split at h
  next => cases h
  next i hi =>
    split_ifs at h with hfull
    split at h
    next => cases h
    next made hmade =>
      obtain ⟨⟨hnonneg, hle, hprogram⟩, rfl⟩ := Track.make_eq_ok_iff.mp hmade
      split at h
      next => cases h
      next notes hnotes =>
        cases h
        obtain ⟨bs, hbs, rfl⟩ := exists_beats_of_timeline hnotes
        exact ⟨hnonneg, hle, fun p hp => (hprogram p hp).1, fun p hp => (hprogram p hp).2,
          fun n hn => valid_of_mem_notesFrom le_rfl hbs hn⟩

/-- A part that becomes no track asks for something that is missing. -/
theorem missing_of_trackAfter_error (he : e.Valid) {taken : Nat} {source : String} {part : Part}
    {fault : PartFault} (h : trackAfter e loops taken source part = .error fault) :
    fault.Missing := by
  simp only [trackAfter] at h
  split at h
  next =>
    cases h
    exact .unresolved part.instrument source
  next i hi =>
    split_ifs at h with hfull
    · cases h
      exact .exhausted ⟨melodicChannel taken⟩
    · rw [make_seatAfter (he _ i hi) hfull] at h
      dsimp only at h
      split at h
      next fault' hnotes =>
        cases h
        exact missing_of_timeline_error (he _ i hi) hnotes
      next => cases h

/-- The tracks by position are valid. -/
theorem valid_of_tracksAfter {taken : Nat} {parts : List (String × Part)} {ts : List Track}
    (h : tracksAfter e loops taken parts = .ok ts) : ∀ t ∈ ts, t.Valid := by
  induction parts generalizing taken ts with
  | nil =>
    cases h
    exact fun t ht => absurd ht List.not_mem_nil
  | cons p rest ih =>
    obtain ⟨source, part⟩ := p
    obtain ⟨t, more, ht, hmore, rfl⟩ := tracksAfter_cons_eq_ok_iff.mp h
    intro t' ht'
    rcases List.mem_cons.mp ht' with rfl | ht'
    · exact valid_of_trackAfter ht
    · exact ih hmore t' ht'

/-- An assembly gives a score in range, or some part asks for something that is missing. -/
theorem assemble_valid_or_missing (he : e.Valid) (loops tempo : Int)
    (parts : List (String × Part)) :
    (∃ s, assemble e loops tempo parts = .ok s ∧ s.Valid) ∨
      ∃ fault, assemble e loops tempo parts = .error fault ∧ fault.Missing := by
  cases h : assemble e loops tempo parts with
  | ok s =>
    obtain ⟨-, hts⟩ := assemble_eq_ok_iff.mp h
    exact Or.inl ⟨s, rfl, valid_of_tracksAfter hts⟩
  | error fault =>
    obtain ⟨before, source, part, after, -, -, herror⟩ :=
      tracksAfter_eq_error_iff.mp (assemble_eq_error_iff.mp h)
    exact Or.inr ⟨fault, rfl, missing_of_trackAfter_error he herror⟩

/-- The notes of a part that was added were laid out by the instrument of its type. -/
theorem timeline_of_addPart {a a' : Assembly} {source : String} {part : Part} {t : Track}
    (h : a.addPart e loops source part = (.ok t, a')) :
    ∃ i, e.findByType part.instrument = some i ∧ timeline i part.slots loops = .ok t.notes := by
  simp only [Assembly.addPart] at h
  split at h
  next => cases h
  next i hi =>
    split at h
    next => cases h
    next assignment counter _ =>
      split at h
      next => cases h
      next made _ =>
        split at h
        next => cases h
        next notes hnotes =>
          cases h
          exact ⟨i, hi, hnotes⟩

/-! ## Scores -/

/-- At a tempo from 20 to 300 a beat lasts no longer than its message can say. -/
theorem microseconds_le {tempo : Int} (htempo : 20 ≤ tempo) :
    Int.tdiv 60000000 tempo ≤ 0xffffff := by
  rw [Int.tdiv_eq_ediv_of_nonneg (by decide)]
  exact Int.lt_add_one_iff.mp (Int.ediv_lt_of_lt_mul (by omega) (by omega))

/-- A score in range has a file at every resolution, and all messages of the file are in range. -/
theorem exists_ofScore {s : Score} (hs : s.Valid) (htempo : 20 ≤ s.tempo) (ticksPerBeat : Int) :
    ∃ f, Midi.ofScore ticksPerBeat s = .ok f ∧
      ∀ ms ∈ f.tracks, ∀ m ∈ ms, m.message.Fits := by
  have hle := microseconds_le htempo
  refine ⟨_, Midi.ofScore_eq (by omega) hle ticksPerBeat, fun ms hms m hm => ?_⟩
  rcases List.mem_cons.mp hms with rfl | hms
  · have hnonneg : 0 ≤ Int.tdiv 60000000 s.tempo := Int.tdiv_nonneg (by decide) (by omega)
    exact (Midi.fits_of_mem_tempoTrack hnonneg hle hm).message
  · obtain ⟨t, ht, rfl⟩ := List.mem_map.mp hms
    exact Midi.message_fits_of_mem_ofTrack (hs t ht) hm

/-- Behind a check of definitions no number goes out of range. Instruments with distinct names whose
definitions have passed make an ensemble, and whatever parts are assembled with it, in whatever
number of loops, either the score is in range or the fault is that something is missing which a part
asks for. Each part that becomes a track has a length, and a score of an ordinary tempo has a file
with all messages in range, whatever the resolution. -/
theorem assemble_in_range {is : List Instrument} (hnames : (is.map Instrument.name).Nodup)
    (hdefinitions : ∀ i ∈ is, ∃ pool v, Definition.ofValue pool v = .ok i.definition) :
    ∃ e, Ensemble.ofList is = .ok e ∧
      ∀ (loops tempo : Int) (parts : List (String × Part)),
        ((∃ s, assemble e loops tempo parts = .ok s ∧ s.Valid) ∨
          ∃ fault, assemble e loops tempo parts = .error fault ∧ fault.Missing) ∧
        (1 ≤ loops → ∀ (a a' : Assembly) (source : String) (part : Part) (t : Track),
          a.addPart e loops source part = (.ok t, a') →
            ∃ length, Part.totalLength part.slots = .ok length) ∧
        (20 ≤ tempo → ∀ s, assemble e loops tempo parts = .ok s → ∀ ticksPerBeat,
          ∃ f, Midi.ofScore ticksPerBeat s = .ok f ∧
            ∀ ms ∈ f.tracks, ∀ m ∈ ms, m.message.Fits) := by
  obtain ⟨e, he, hholds⟩ := Ensemble.exists_ofList hnames
  have hvalid : e.Valid := hholds.valid fun i hi =>
    have ⟨_, _, h⟩ := hdefinitions i hi
    Definition.valid_of_ofValue h
  refine ⟨e, he, fun loops tempo parts => ⟨assemble_valid_or_missing hvalid loops tempo parts,
    fun hloops a a' source part t hadd => ?length, fun htempo s hs ticksPerBeat => ?file⟩⟩
  case length =>
    obtain ⟨i, -, hnotes⟩ := timeline_of_addPart hadd
    exact exists_totalLength_of_timeline hnotes hloops
  case file =>
    obtain ⟨htempo', hts⟩ := assemble_eq_ok_iff.mp hs
    exact exists_ofScore (valid_of_tracksAfter hts) (htempo' ▸ htempo) ticksPerBeat

/-- The greatest program and the greatest note number, by the formula and by a table, at the slowest
tempo and a negative resolution. -/
theorem assemble_in_range_at_bounds :
    ∃ e s f,
      Ensemble.ofList
        [⟨"piano", ⟨"keys", some 128, none⟩⟩, ⟨"kit", ⟨"drums", some 1, some [("k", 127)]⟩⟩]
          = .ok e ∧
      assemble e 1 20
        [("a.yaml", ⟨"keys", [⟨"2", .single "g9"⟩]⟩), ("b.yaml", ⟨"drums", [⟨"16", .single "k"⟩]⟩)]
          = .ok s ∧
      s.Valid ∧
      s.tracks = [⟨"piano", 0, some 127, [⟨127, 0, 2⟩]⟩, ⟨"kit", 9, none, [⟨127, 0, 1 / 4⟩]⟩] ∧
      Midi.ofScore (-480) s = .ok f ∧ ∀ ms ∈ f.tracks, ∀ m ∈ ms, m.message.Fits := by
  let piano : Instrument := ⟨"piano", ⟨"keys", some 128, none⟩⟩
  let kit : Instrument := ⟨"kit", ⟨"drums", some 1, some [("k", 127)]⟩⟩
  have hpiano : Definition.ofValue .empty
      (.dict [(.text "type", .text "keys"), (.text "program", .int 128)])
        = .ok piano.definition := by cbv
  have hkit : Definition.ofValue .empty
      (.dict [(.text "type", .text "drums"), (.text "program", .int 1),
        (.text "pitchMap", .dict [(.text "k", .int 127)])]) = .ok kit.definition := by cbv
  obtain ⟨e, he, hall⟩ := @assemble_in_range [piano, kit] (by decide)
    (by
      intro i hi
      rcases List.mem_cons.mp hi with rfl | hi
      · exact ⟨_, _, hpiano⟩
      · rw [List.mem_singleton.mp hi]
        exact ⟨_, _, hkit⟩)
  have hheld : e = ⟨[piano, kit], [("keys", piano), ("drums", kit)]⟩ := by
    have hlist : Ensemble.ofList [piano, kit]
        = .ok ⟨[piano, kit], [("keys", piano), ("drums", kit)]⟩ := by cbv
    rw [hlist] at he
    cases he
    rfl
  obtain ⟨hassemble, -, hfile⟩ := hall 1 20
    [("a.yaml", ⟨"keys", [⟨"2", .single "g9"⟩]⟩), ("b.yaml", ⟨"drums", [⟨"16", .single "k"⟩]⟩)]
  have hscore : assemble e 1 20
      [("a.yaml", ⟨"keys", [⟨"2", .single "g9"⟩]⟩), ("b.yaml", ⟨"drums", [⟨"16", .single "k"⟩]⟩)]
      = .ok ⟨20, [⟨"piano", 0, some 127, [⟨127, 0, 2⟩]⟩, ⟨"kit", 9, none, [⟨127, 0, 1 / 4⟩]⟩]⟩ := by
    rw [hheld]
    cbv
  obtain ⟨s, hs, hvalid⟩ | ⟨fault, hfault, -⟩ := hassemble
  · obtain ⟨f, hf, hfits⟩ := hfile le_rfl s hs (-480)
    refine ⟨e, s, f, he, hs, hvalid, ?_, hf, hfits⟩
    rw [hscore] at hs
    cases hs
    rfl
  · rw [hscore] at hfault
    cases hfault

end Ostinato

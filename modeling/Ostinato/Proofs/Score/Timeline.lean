import Mathlib.Algebra.Order.BigOperators.Group.List
import Ostinato.Proofs.Duration
import Ostinato.Proofs.Outcome
import Ostinato.Score.Timeline

/-!
# Beats and their layout

A time line is made of two parts that know nothing of each other. `Beat.ofSlot` says what a slot is
to an instrument, how long it lasts and which note numbers it sounds; all that can be wrong is wrong
here. `notesFrom` puts beats one after the other. `Timeline.loop_of_beats` says that a time line is
the layout of the beats of its slots, repeated.
-/

namespace Ostinato

/-- What a slot is to an instrument: how long it lasts and the note numbers that it sounds. -/
structure Beat where
  length : Rat
  pitches : List Int
  deriving DecidableEq, Repr

namespace Beat

/-- A beat that lasts a length of the table and sounds note numbers in range. -/
structure Valid (b : Beat) : Prop where
  isLength : IsLength b.length
  pitch_nonneg : ∀ p ∈ b.pitches, 0 ≤ p
  pitch_le : ∀ p ∈ b.pitches, p ≤ maxData

/-- The note number that an instrument plays for a token, if that is one. -/
def pitchOf (i : Instrument) (token : Text) : Except NoteFault Int :=
  match i.resolvePitch token with
  | .error e => .error (.pitch e)
  | .ok p => if p < 0 ∨ maxData < p then .error (.range (.pitch p)) else .ok p

/-- What a slot is to an instrument. The length is looked at before the tokens. -/
def ofSlot (i : Instrument) (s : Slot) : Except NoteFault Beat :=
  match s.length with
  | .error e => .error (.duration e)
  | .ok length => (s.tokens.mapM (pitchOf i)).map (Beat.mk length)

/-- The notes of a beat at a time, which start together. -/
def notesAt (time : Rat) (b : Beat) : List NoteEvent :=
  b.pitches.map fun p => ⟨p, time, b.length⟩

end Beat

/-- The notes of beats that follow one another from a time on. -/
def notesFrom : Rat → List Beat → List NoteEvent
  | _, [] => []
  | time, b :: bs => b.notesAt time ++ notesFrom (time + b.length) bs

/-- How long some beats last together. -/
def span (bs : List Beat) : Rat := (bs.map Beat.length).sum

/-! ## What a beat is made of -/

variable {i : Instrument}

/-- The pitch of a token fits a data byte. -/
theorem Beat.pitchOf_bounds {token : Text} {p : Int} (h : Beat.pitchOf i token = .ok p) :
    0 ≤ p ∧ p ≤ maxData := by
  simp only [Beat.pitchOf] at h
  split at h
  · cases h
  · split_ifs at h
    cases h
    omega

/-- A slot is a beat just if it has a length and all its tokens have pitches. -/
theorem Beat.ofSlot_eq_ok_iff {s : Slot} {b : Beat} :
    Beat.ofSlot i s = .ok b ↔
      s.length = .ok b.length ∧ s.tokens.mapM (Beat.pitchOf i) = .ok b.pitches := by
  obtain ⟨length, pitches⟩ := b
  simp only [Beat.ofSlot]
  cases s.length with
  | error e => simp
  | ok length' =>
    cases s.tokens.mapM (Beat.pitchOf i) with
    | error e => simp [Except.map]
    | ok pitches' => simp [Except.map]

/-- The beat of a slot is in range, whatever instrument plays it. -/
theorem Beat.valid_of_ofSlot {s : Slot} {b : Beat} (h : Beat.ofSlot i s = .ok b) : b.Valid := by
  obtain ⟨hlength, hpitches⟩ := Beat.ofSlot_eq_ok_iff.mp h
  have hbounds : ∀ p ∈ b.pitches, 0 ≤ p ∧ p ≤ maxData := by
    intro p hp
    obtain ⟨token, -, htoken⟩ := exists_of_mem_mapM hpitches hp
    exact Beat.pitchOf_bounds htoken
  exact ⟨Slot.isLength_of_length hlength, fun p hp => (hbounds p hp).1,
    fun p hp => (hbounds p hp).2⟩

/-- The beats of slots are valid. -/
theorem Beat.valid_of_mapM {slots : List Slot} {bs : List Beat}
    (h : slots.mapM (Beat.ofSlot i) = .ok bs) : ∀ b ∈ bs, b.Valid := by
  intro b hb
  obtain ⟨s, -, hs⟩ := exists_of_mem_mapM h hb
  exact Beat.valid_of_ofSlot hs

/-! ## The layout -/

/-- Notes go on from the end of the beats before them. -/
theorem notesFrom_append (time : Rat) (bs cs : List Beat) :
    notesFrom time (bs ++ cs) = notesFrom time bs ++ notesFrom (time + span bs) cs := by
  induction bs generalizing time with
  | nil => simp [notesFrom, span]
  | cons b bs ih =>
    have hspan : time + b.length + span bs = time + span (b :: bs) := by
      simp only [span, List.map_cons, List.sum_cons]
      ring
    simp only [List.cons_append, notesFrom, ih, hspan, List.append_assoc]

/-- The spans of two lists of beats add up. -/
theorem span_append (bs cs : List Beat) : span (bs ++ cs) = span bs + span cs := by
  simp [span]

/-- Beats that are played several times span as many times as much. -/
theorem span_replicate (n : Nat) (bs : List Beat) :
    span (List.replicate n bs).flatten = n * span bs := by
  induction n with
  | zero => simp [span]
  | succ n ih =>
    rw [List.replicate_succ', List.flatten_append, span_append, ih, List.flatten_singleton]
    push_cast
    ring

/-- In a layout that is repeated, each pass begins when those before it have gone by. -/
theorem notesFrom_flatten_replicate (n : Nat) (time : Rat) (bs : List Beat) :
    notesFrom time (List.replicate n bs).flatten
      = (List.range n).flatMap fun k : Nat => notesFrom (time + k * span bs) bs := by
  induction n with
  | zero => rfl
  | succ n ih =>
    rw [List.replicate_succ', List.flatten_append, List.flatten_singleton, notesFrom_append, ih,
      span_replicate, List.range_succ, List.flatMap_append, List.flatMap_singleton]

/-- A note of a layout lasts as long as some beat and has one of its pitches. -/
theorem exists_beat_of_mem_notesFrom {time : Rat} {bs : List Beat} {n : NoteEvent}
    (h : n ∈ notesFrom time bs) : ∃ b ∈ bs, n.duration = b.length ∧ n.pitch ∈ b.pitches := by
  induction bs generalizing time with
  | nil => cases h
  | cons b bs ih =>
    rcases List.mem_append.mp h with h | h
    · obtain ⟨p, hp, rfl⟩ := List.mem_map.mp h
      exact ⟨b, List.mem_cons_self, rfl, hp⟩
    · obtain ⟨b', hb', hn⟩ := ih h
      exact ⟨b', List.mem_cons_of_mem b hb', hn⟩

/-- Beats that start on the grid and last whole sixteenths leave the grid nowhere. -/
theorem onGrid_of_mem_notesFrom {time : Rat} {bs : List Beat} (htime : OnGrid time)
    (hbs : ∀ b ∈ bs, b.Valid) {n : NoteEvent} (h : n ∈ notesFrom time bs) :
    OnGrid n.time ∧ OnGrid n.stop := by
  induction bs generalizing time with
  | nil => cases h
  | cons b bs ih =>
    have hstop : OnGrid (time + b.length) :=
      htime.add (hbs b List.mem_cons_self).isLength.onGrid
    rcases List.mem_append.mp h with h | h
    · obtain ⟨p, -, rfl⟩ := List.mem_map.mp h
      exact ⟨htime, hstop⟩
    · exact ih hstop (fun b' hb' => hbs b' (List.mem_cons_of_mem b hb')) h

/-- Valid beats that start no earlier than zero have valid notes. -/
theorem valid_of_mem_notesFrom {time : Rat} {bs : List Beat} (htime : 0 ≤ time)
    (hbs : ∀ b ∈ bs, b.Valid) {n : NoteEvent} (h : n ∈ notesFrom time bs) : n.Valid := by
  induction bs generalizing time with
  | nil => cases h
  | cons b bs ih =>
    have hb := hbs b List.mem_cons_self
    rcases List.mem_append.mp h with h | h
    · obtain ⟨p, hp, rfl⟩ := List.mem_map.mp h
      exact ⟨hb.pitch_nonneg p hp, hb.pitch_le p hp, htime, hb.isLength.pos⟩
    · exact ih (add_nonneg htime hb.isLength.pos.le)
        (fun b' hb' => hbs b' (List.mem_cons_of_mem b hb')) h

/-- Valid beats do not span less than nothing. -/
theorem span_nonneg {bs : List Beat} (h : ∀ b ∈ bs, b.Valid) : 0 ≤ span bs := by
  apply List.sum_nonneg
  intro d hd
  obtain ⟨b, hb, rfl⟩ := List.mem_map.mp hd
  exact (h b hb).isLength.pos.le

/-- The span of valid beats lies on the grid. -/
theorem onGrid_span {bs : List Beat} (h : ∀ b ∈ bs, b.Valid) : OnGrid (span bs) := by
  induction bs with
  | nil => exact onGrid_zero
  | cons b bs ih =>
    have hrest := ih fun b' hb' => h b' (List.mem_cons_of_mem b hb')
    rw [span, List.map_cons, List.sum_cons]
    exact (h b List.mem_cons_self).isLength.onGrid.add hrest

/-- A part lasts as long as its beats. -/
theorem Part.totalLength_of_beats {slots : List Slot} {bs : List Beat}
    (h : slots.mapM (Beat.ofSlot i) = .ok bs) : Part.totalLength slots = .ok (span bs) := by
  induction slots generalizing bs with
  | nil =>
    cases h
    rfl
  | cons slot slots ih =>
    obtain ⟨b, rest, hb, hrest, rfl⟩ := mapM_cons_eq_ok_iff.mp h
    simp only [Part.totalLength, (Beat.ofSlot_eq_ok_iff.mp hb).1, ih hrest]
    rfl

/-! ## The time line of slots -/

/-- With a length of the table and a time that is not negative, only a pitch can be out of range. -/
theorem Timeline.note_eq {time length : Rat} (htime : 0 ≤ time) (hlength : 0 < length)
    (token : Text) :
    Timeline.note i time length token
      = (Beat.pitchOf i token).map fun p => ⟨p, time, length⟩ := by
  simp only [Timeline.note, Beat.pitchOf]
  cases i.resolvePitch token with
  | error e => rfl
  | ok p =>
    simp only [NoteEvent.make, if_neg htime.not_gt, if_neg hlength.not_ge]
    split_ifs <;> rfl

/-- A chord is the notes of a beat, if its tokens have pitches. -/
theorem Timeline.chord_eq {time length : Rat} (htime : 0 ≤ time) (hlength : 0 < length)
    (tokens : List Text) :
    Timeline.chord i time length tokens
      = (tokens.mapM (Beat.pitchOf i)).map fun ps => Beat.notesAt time ⟨length, ps⟩ := by
  induction tokens with
  | nil => rfl
  | cons token tokens ih =>
    simp only [Timeline.chord, Timeline.note_eq htime hlength, ih]
    cases hp : Beat.pitchOf i token with
    | error e => rw [mapM_cons_error tokens hp]; rfl
    | ok p =>
      rw [mapM_cons_ok tokens hp]
      cases tokens.mapM (Beat.pitchOf i) <;> rfl

/-- One pass over the slots lays out their beats and moves the clock by their span. -/
theorem Timeline.pass_eq {time : Rat} (htime : 0 ≤ time) (slots : List Slot) :
    Timeline.pass i slots time
      = (slots.mapM (Beat.ofSlot i)).map fun bs => (notesFrom time bs, time + span bs) := by
  induction slots generalizing time with
  | nil => simp [Timeline.pass, notesFrom, span, Except.map, pure, Except.pure]
  | cons slot slots ih =>
    simp only [Timeline.pass]
    cases hlength : slot.length with
    | error e =>
      have hbeat : Beat.ofSlot i slot = .error (.duration e) := by simp [Beat.ofSlot, hlength]
      rw [mapM_cons_error slots hbeat]
      rfl
    | ok length =>
      have hpos := (Slot.isLength_of_length hlength).pos
      simp only [Timeline.chord_eq htime hpos, ih (add_nonneg htime hpos.le)]
      cases hps : slot.tokens.mapM (Beat.pitchOf i) with
      | error e =>
        have hbeat : Beat.ofSlot i slot = .error e := by
          simp [Beat.ofSlot, hlength, hps, Except.map]
        rw [mapM_cons_error slots hbeat]
        rfl
      | ok ps =>
        have hbeat : Beat.ofSlot i slot = .ok ⟨length, ps⟩ := by
          simp [Beat.ofSlot, hlength, hps, Except.map]
        rw [mapM_cons_ok slots hbeat]
        cases slots.mapM (Beat.ofSlot i) with
        | error e => rfl
        | ok bs => simp [Except.map, notesFrom, span, add_assoc]

/-- Passes follow one another without a gap, so any number of them is the layout of the beats
repeated. -/
theorem Timeline.loop_of_beats {slots : List Slot} {bs : List Beat}
    (h : slots.mapM (Beat.ofSlot i) = .ok bs) (n : Nat) {time : Rat} (htime : 0 ≤ time) :
    Timeline.loop i slots n time = .ok (notesFrom time (List.replicate n bs).flatten) := by
  induction n generalizing time with
  | zero => rfl
  | succ n ih =>
    have hnext : 0 ≤ time + span bs := add_nonneg htime (span_nonneg (Beat.valid_of_mapM h))
    simp only [Timeline.loop, Timeline.pass_eq htime, h, Except.map, ih hnext, List.replicate_succ,
      List.flatten_cons, notesFrom_append]

/-- The first pass fails as soon as some slot is no beat. -/
theorem Timeline.loop_of_error {slots : List Slot} {e : NoteFault}
    (h : slots.mapM (Beat.ofSlot i) = .error e) (n : Nat) {time : Rat} (htime : 0 ≤ time) :
    Timeline.loop i slots (n + 1) time = .error e := by
  simp only [Timeline.loop, Timeline.pass_eq htime, h, Except.map]

/-- Slots that are all beats are laid out as these, once for each pass. -/
theorem timeline_of_beats {slots : List Slot} {bs : List Beat}
    (h : slots.mapM (Beat.ofSlot i) = .ok bs) (loops : Int) :
    timeline i slots loops = .ok (notesFrom 0 (List.replicate loops.toNat bs).flatten) :=
  Timeline.loop_of_beats h loops.toNat le_rfl

/-- Slots that are not all beats fail as the first one that is none, if they are played at all. -/
theorem timeline_of_error {slots : List Slot} {e : NoteFault}
    (h : slots.mapM (Beat.ofSlot i) = .error e) {loops : Int} (hloops : 1 ≤ loops) :
    timeline i slots loops = .error e := by
  obtain ⟨n, hn⟩ := Nat.exists_eq_add_of_lt (by omega : 0 < loops.toNat)
  rw [timeline, hn, Nat.zero_add]
  exact Timeline.loop_of_error h n le_rfl

/-- What can be played once has beats. -/
theorem beats_of_timeline {slots : List Slot} {loops : Int} {notes : List NoteEvent}
    (h : timeline i slots loops = .ok notes) (hloops : 1 ≤ loops) :
    ∃ bs, slots.mapM (Beat.ofSlot i) = .ok bs := by
  cases hbs : slots.mapM (Beat.ofSlot i) with
  | error e => rw [timeline_of_error hbs hloops] at h; cases h
  | ok bs => exact ⟨bs, rfl⟩

/-- What cannot be laid out has a slot that is no beat. -/
theorem mapM_of_timeline_error {slots : List Slot} {loops : Int} {fault : NoteFault}
    (h : timeline i slots loops = .error fault) :
    slots.mapM (Beat.ofSlot i) = .error fault := by
  cases hbs : slots.mapM (Beat.ofSlot i) with
  | ok bs => rw [timeline_of_beats hbs] at h; cases h
  | error e =>
    by_cases hloops : 1 ≤ loops
    · rw [timeline_of_error hbs hloops] at h
      cases h
      rfl
    · have hzero : loops.toNat = 0 := by omega
      rw [timeline, hzero] at h
      cases h

/-- Whatever a time line holds, it is the layout of valid beats from zero on. -/
theorem exists_beats_of_timeline {slots : List Slot} {loops : Int} {notes : List NoteEvent}
    (h : timeline i slots loops = .ok notes) :
    ∃ bs : List Beat, (∀ b ∈ bs, b.Valid) ∧ notes = notesFrom 0 bs := by
  by_cases hloops : 1 ≤ loops
  · obtain ⟨bs, hbs⟩ := beats_of_timeline h hloops
    rw [timeline_of_beats hbs] at h
    cases h
    refine ⟨(List.replicate loops.toNat bs).flatten, fun b hb => ?_, rfl⟩
    obtain ⟨pass, hpass, hb⟩ := List.mem_flatten.mp hb
    rw [List.eq_of_mem_replicate hpass] at hb
    exact Beat.valid_of_mapM hbs b hb
  · have hzero : loops.toNat = 0 := by omega
    rw [timeline, hzero] at h
    cases h
    exact ⟨[], by simp, rfl⟩

end Ostinato

import Mathlib
import Ostinato.Proofs.Score.Timeline

/-!
# Where each slot stands

A time line has one clock for all of its passes, which every slot moves on once. `slotStart` says
without a clock where a slot stands: the earlier passes have gone by, and in its own pass the
earlier slots. The main result, `timeline_by_slot`, reads a whole time line off these places, and
says that the places follow one another without a gap.
-/

namespace Ostinato

/-- The length of a slot whose code is known; zero for any other. -/
def Slot.seconds (s : Slot) : Rat := s.length.toOption.getD 0

/-- The note number of a token that an instrument knows; zero for any other. -/
def Instrument.noteNumber (i : Instrument) (token : Text) : Int :=
  (i.resolvePitch token).toOption.getD 0

/-- The notes of a slot that an instrument plays at a time. -/
def Instrument.strike (i : Instrument) (s : Slot) (time : Rat) : List NoteEvent :=
  s.tokens.map fun token => ⟨i.noteNumber token, time, s.seconds⟩

/-- How long some slots last together. -/
def secondsOf (slots : List Slot) : Rat := (slots.map Slot.seconds).sum

/-- When a slot starts: behind the passes before its own, and behind the slots before it. -/
def slotStart (slots : List Slot) (pass slot : Nat) : Rat :=
  pass * secondsOf slots + secondsOf (slots.take slot)

/-- When the slot behind a slot starts: the next one of the pass, or the first of the next pass. -/
def nextStart (slots : List Slot) (pass slot : Nat) : Rat :=
  if slot + 1 < slots.length then slotStart slots pass (slot + 1) else slotStart slots (pass + 1) 0

/-- The beat of a slot whose code and tokens are known. -/
def Instrument.beat (i : Instrument) (s : Slot) : Beat := ⟨s.seconds, s.tokens.map i.noteNumber⟩

variable {i : Instrument} {slots : List Slot} {loops : Int}

/-! ## What is known of slots -/

/-- A slot with a length lasts so many seconds. -/
theorem Slot.seconds_of_length {s : Slot} {d : Rat} (h : s.length = .ok d) : s.seconds = d := by
  rw [Slot.seconds, h]
  rfl

/-- A token with a pitch has that note number. -/
theorem Instrument.noteNumber_of_resolvePitch {token : Text} {p : Int}
    (h : i.resolvePitch token = .ok p) : i.noteNumber token = p := by
  rw [Instrument.noteNumber, h]
  rfl

/-- The pitch of a token on a beat is that on the instrument. -/
theorem Beat.resolvePitch_of_pitchOf {token : Text} {p : Int}
    (h : Beat.pitchOf i token = .ok p) : i.resolvePitch token = .ok p := by
  simp only [Beat.pitchOf] at h
  split at h
  next => cases h
  next p' hp =>
    split_ifs at h
    cases h
    exact hp

/-- A slot that is a beat to an instrument has a known code and known tokens, and is that beat. -/
theorem Beat.known_of_ofSlot {s : Slot} {b : Beat} (h : Beat.ofSlot i s = .ok b) :
    s.length = .ok s.seconds ∧
      (∀ token ∈ s.tokens, i.resolvePitch token = .ok (i.noteNumber token)) ∧ i.beat s = b := by
  obtain ⟨hlength, hpitches⟩ := Beat.ofSlot_eq_ok_iff.mp h
  have hnumber : ∀ token p, Beat.pitchOf i token = .ok p → i.noteNumber token = p :=
    fun token p hp => Instrument.noteNumber_of_resolvePitch (Beat.resolvePitch_of_pitchOf hp)
  have hseconds : s.seconds = b.length := Slot.seconds_of_length hlength
  refine ⟨hseconds ▸ hlength, fun token htoken => ?_, ?_⟩
  · obtain ⟨p, hp⟩ := exists_ok_of_mapM hpitches htoken
    rw [hnumber token p hp, Beat.resolvePitch_of_pitchOf hp]
  · rw [Instrument.beat, hseconds, ← eq_map_of_mapM hnumber hpitches]

/-- The beats of slots span the seconds of the slots. -/
theorem span_map_beat (slots : List Slot) : span (slots.map i.beat) = secondsOf slots := by
  rw [span, List.map_map, secondsOf]
  rfl

/-! ## Places -/

/-- The seconds of two lists of slots add up. -/
theorem secondsOf_append (slots slots' : List Slot) :
    secondsOf (slots ++ slots') = secondsOf slots + secondsOf slots' := by
  simp [secondsOf]

/-- A slot ends where the next one starts, be it in the same pass or in the next. -/
theorem slotStart_add_seconds {slot : Nat} {s : Slot} (h : slots[slot]? = some s) (pass : Nat) :
    slotStart slots pass slot + s.seconds = nextStart slots pass slot := by
  obtain ⟨hlt, hget⟩ := List.getElem?_eq_some_iff.mp h
  have htake : secondsOf (slots.take (slot + 1)) = secondsOf (slots.take slot) + s.seconds := by
    rw [List.take_succ_eq_append_getElem hlt, hget, secondsOf_append]
    simp [secondsOf]
  rw [nextStart]
  split_ifs with hnext
  · rw [slotStart, slotStart, htake, add_assoc]
  · -- behind the last slot a whole pass has gone by
    have hall : slots.take (slot + 1) = slots := List.take_of_length_le (by omega)
    rw [hall] at htake
    rw [slotStart, slotStart, List.take_zero, add_assoc, ← htake]
    simp only [secondsOf, List.map_nil, List.sum_nil]
    push_cast
    ring

/-- The clock stands behind the slots that have been played: those of a layout start at their
places. -/
theorem notesFrom_map_beat (time : Rat) (before slots : List Slot) :
    notesFrom (time + secondsOf before) (slots.map i.beat)
      = (slots.zipIdx before.length).flatMap
          fun p => i.strike p.1 (time + secondsOf ((before ++ slots).take p.2)) := by
  induction slots generalizing before with
  | nil => rfl
  | cons s slots ih =>
    have hclock : time + secondsOf before + (i.beat s).length
        = time + secondsOf (before ++ [s]) := by
      rw [secondsOf_append, add_assoc]
      simp [secondsOf, Instrument.beat]
    have hfirst : (i.beat s).notesAt (time + secondsOf before)
        = i.strike s (time + secondsOf ((before ++ s :: slots).take before.length)) := by
      rw [List.take_left, Beat.notesAt, Instrument.beat, List.map_map]
      rfl
    rw [List.map_cons, notesFrom, hclock, ih, hfirst, List.zipIdx_cons, List.flatMap_cons,
      List.length_append, List.append_assoc]
    rfl

/-! ## Time lines -/

/-- Notes that are laid out from a time on do not start before it. -/
theorem time_le_of_mem_notesFrom {time : Rat} {bs : List Beat} (hbs : ∀ b ∈ bs, b.Valid)
    {n : NoteEvent} (h : n ∈ notesFrom time bs) : time ≤ n.time := by
  induction bs generalizing time with
  | nil => cases h
  | cons b bs ih =>
    rcases List.mem_append.mp h with h | h
    · obtain ⟨p, -, rfl⟩ := List.mem_map.mp h
      exact le_rfl
    · have hpos := (hbs b List.mem_cons_self).isLength.pos
      have hrest := ih (fun b' hb' => hbs b' (List.mem_cons_of_mem b hb')) h
      exact (le_add_of_nonneg_right hpos.le).trans hrest

/-- Notes of a layout are in the order of their times. -/
theorem pairwise_time_notesFrom {time : Rat} {bs : List Beat} (hbs : ∀ b ∈ bs, b.Valid) :
    (notesFrom time bs).Pairwise fun m n => m.time ≤ n.time := by
  induction bs generalizing time with
  | nil => exact List.Pairwise.nil
  | cons b bs ih =>
    have hrest : ∀ b' ∈ bs, b'.Valid := fun b' hb' => hbs b' (List.mem_cons_of_mem b hb')
    have hpos := (hbs b List.mem_cons_self).isLength.pos
    rw [notesFrom, List.pairwise_append]
    refine ⟨?_, ih hrest, ?_⟩
    · rw [Beat.notesAt, List.pairwise_map]
      exact List.pairwise_of_forall fun _ _ => le_rfl
    · intro m hm n hn
      obtain ⟨p, -, rfl⟩ := List.mem_map.mp hm
      exact (le_add_of_nonneg_right hpos.le).trans (time_le_of_mem_notesFrom hrest hn)

/-- What is played once at least has codes and tokens that are known, and a length. -/
theorem known_of_timeline {notes : List NoteEvent} (h : timeline i slots loops = .ok notes)
    (hloops : 1 ≤ loops) :
    Part.totalLength slots = .ok (secondsOf slots) ∧
      ∀ s ∈ slots, s.length = .ok s.seconds ∧
        ∀ token ∈ s.tokens, i.resolvePitch token = .ok (i.noteNumber token) := by
  obtain ⟨bs, hbs⟩ := beats_of_timeline h hloops
  obtain rfl := eq_map_of_mapM (fun s b hb => (Beat.known_of_ofSlot hb).2.2) hbs
  refine ⟨by rw [Part.totalLength_of_beats hbs, span_map_beat], fun s hs => ?_⟩
  obtain ⟨b, hb⟩ := exists_ok_of_mapM hbs hs
  obtain ⟨hlength, htokens, -⟩ := Beat.known_of_ofSlot hb
  exact ⟨hlength, htokens⟩

/-- The notes of a time line are those of its slots at their places, pass by pass. -/
theorem timeline_eq_flatMap {notes : List NoteEvent} (h : timeline i slots loops = .ok notes) :
    notes = (List.range loops.toNat).flatMap fun pass =>
      slots.zipIdx.flatMap fun p => i.strike p.1 (slotStart slots pass p.2) := by
  by_cases hloops : 1 ≤ loops
  · obtain ⟨bs, hbs⟩ := beats_of_timeline h hloops
    rw [timeline_of_beats hbs] at h
    cases h
    obtain rfl := eq_map_of_mapM (fun s b hb => (Beat.known_of_ofSlot hb).2.2) hbs
    rw [notesFrom_flatten_replicate]
    refine List.flatMap_congr fun pass _ => ?_
    -- a pass starts with no slot of its own behind it
    have hpass := notesFrom_map_beat (i := i) (pass * secondsOf slots) [] slots
    have hnil : secondsOf [] = 0 := rfl
    rw [hnil, add_zero] at hpass
    rw [span_map_beat, zero_add, hpass]
    rfl
  · have hzero : loops.toNat = 0 := by omega
    rw [timeline, hzero] at h
    cases h
    rw [hzero]
    rfl

/-- A time line by slots. With at least one pass every code and every token is known. Then the notes
are those of the slots at their places, pass by pass, slot by slot and token by token: each has the
note number of its token, starts when the earlier passes and the earlier slots of its own pass have
gone by, and lasts as long as its slot. So there are as many notes as tokens in all passes, and
their times never go back. A slot takes its place whether it sounds or not, and its notes end
exactly where the next slot starts. -/
theorem timeline_by_slot {notes : List NoteEvent} (h : timeline i slots loops = .ok notes) :
    (1 ≤ loops →
      Part.totalLength slots = .ok (secondsOf slots) ∧
      ∀ s ∈ slots, s.length = .ok s.seconds ∧
        ∀ token ∈ s.tokens, i.resolvePitch token = .ok (i.noteNumber token)) ∧
    notes = ((List.range loops.toNat).flatMap fun pass =>
      slots.zipIdx.flatMap fun p => i.strike p.1 (slotStart slots pass p.2)) ∧
    notes.length = loops.toNat * (slots.map fun s => s.tokens.length).sum ∧
    notes.Pairwise (fun m n => m.time ≤ n.time) ∧
    ∀ (pass slot : Nat) (s : Slot), slots[slot]? = some s →
      slotStart slots pass slot + s.seconds = nextStart slots pass slot ∧
      (s.tokens = [] → i.strike s (slotStart slots pass slot) = []) ∧
      ∀ n ∈ i.strike s (slotStart slots pass slot), n.stop = nextStart slots pass slot := by
  have hnotes := timeline_eq_flatMap h
  refine ⟨known_of_timeline h, hnotes, ?length, ?order, fun pass slot s hs => ?place⟩
  case length =>
    rw [hnotes]
    have hpass : ∀ pass, (slots.zipIdx.flatMap
        fun p => i.strike p.1 (slotStart slots pass p.2)).length
          = (slots.map fun s => s.tokens.length).sum := by
      intro pass
      have hslots : slots.map (fun s => s.tokens.length)
          = (slots.zipIdx.map Prod.fst).map fun s => s.tokens.length := by
        rw [List.zipIdx_map_fst]
      rw [List.length_flatMap, hslots, List.map_map]
      simp [Instrument.strike, Function.comp_def]
    simp [List.length_flatMap, hpass]
  case order =>
    obtain ⟨bs, hbs, rfl⟩ := exists_beats_of_timeline h
    exact pairwise_time_notesFrom hbs
  case place =>
    have hnext := slotStart_add_seconds hs pass
    refine ⟨hnext, fun htokens => ?_, fun n hn => ?_⟩
    · rw [Instrument.strike, htokens, List.map_nil]
    · obtain ⟨token, -, rfl⟩ := List.mem_map.mp hn
      exact hnext

/-- A chord, a rest and a single note, played twice. -/
theorem timeline_by_slot_around_rest :
    let piano : Instrument := ⟨"piano", ⟨"keys", some 1, none⟩⟩
    let slots : List Slot := [⟨"8.", .chord ["c4", "g4"]⟩, ⟨"4", .chord []⟩, ⟨"2", .single "e4"⟩]
    ∃ notes, timeline piano slots 2 = .ok notes ∧
      Part.totalLength slots = .ok (secondsOf slots) ∧ secondsOf slots = 15 / 4 ∧
      notes = [⟨60, 0, 3 / 4⟩, ⟨67, 0, 3 / 4⟩, ⟨64, 7 / 4, 2⟩,
        ⟨60, 15 / 4, 3 / 4⟩, ⟨67, 15 / 4, 3 / 4⟩, ⟨64, 11 / 2, 2⟩] ∧
      notes.length = 2 * 3 ∧ notes.Pairwise (fun m n => m.time ≤ n.time) ∧
      slotStart slots 0 2 + 2 = nextStart slots 0 2 ∧ nextStart slots 0 2 = 15 / 4 := by
  intro piano slots
  have hplays : timeline piano slots 2
      = .ok [⟨60, 0, 3 / 4⟩, ⟨67, 0, 3 / 4⟩, ⟨64, 7 / 4, 2⟩,
        ⟨60, 15 / 4, 3 / 4⟩, ⟨67, 15 / 4, 3 / 4⟩, ⟨64, 11 / 2, 2⟩] := by cbv
  obtain ⟨hknown, -, hlength, horder, hplace⟩ := timeline_by_slot hplays
  obtain ⟨htotal, -⟩ := hknown (by decide)
  obtain ⟨hnext, -⟩ := hplace 0 2 ⟨"2", .single "e4"⟩ rfl
  have hlast : (⟨"2", .single "e4"⟩ : Slot).seconds = 2 := by cbv
  have hall : secondsOf slots = 15 / 4 := by cbv
  have hstart : nextStart slots 0 2 = 15 / 4 := by cbv
  rw [hlast] at hnext
  exact ⟨_, hplays, htotal, hall, rfl, hlength, horder, hnext, hstart⟩

end Ostinato

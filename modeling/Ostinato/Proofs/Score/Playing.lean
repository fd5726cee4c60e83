import Mathlib
import Ostinato.Proofs.Score.Totals

/-!
# The order of playing

Behind a part and a number of passes stands a list of slots, `Part.played`, that are played one
after the other. A note of the time line is that of one of these slots, and starts when those in
front of it are over. Rests have no notes; they only move the clock.
-/

namespace Ostinato

/-- The slots of a part in the order of playing, all passes in a row. -/
def Part.played (loops : Int) (p : Part) : List Slot :=
  (List.replicate loops.toNat p.slots).flatten

variable {i : Instrument} {slots : List Slot} {notes : List NoteEvent}

/-- The seconds of slots are those of the first and those of the others. -/
theorem secondsOf_cons (s : Slot) (slots : List Slot) :
    secondsOf (s :: slots) = s.seconds + secondsOf slots := by
  simp [secondsOf]

/-- A slot lasts at most two seconds. -/
theorem secondsOf_le (slots : List Slot) : secondsOf slots ≤ 2 * slots.length := by
  induction slots with
  | nil => simp [secondsOf]
  | cons s slots ih =>
    have hs := s.seconds_bounds.2
    rw [secondsOf_cons, List.length_cons]
    push_cast
    linarith

/-- One more slot adds its seconds. -/
theorem secondsOf_concat (slots : List Slot) (s : Slot) :
    secondsOf (slots ++ [s]) = secondsOf slots + s.seconds := by
  simp [secondsOf]

/-- A note of a layout is that of a slot, which starts when the slots in front of it are over. -/
theorem mem_notesFrom_map_beat_iff {time : Rat} {n : NoteEvent} :
    n ∈ notesFrom time (slots.map i.beat) ↔
      ∃ before s after, slots = before ++ s :: after ∧
        n ∈ i.strike s (time + secondsOf before) := by
  induction slots generalizing time with
  | nil => simp [notesFrom]
  | cons s slots ih =>
    have hfirst : (i.beat s).notesAt time = i.strike s (time + secondsOf []) := by
      rw [Beat.notesAt, Instrument.beat, List.map_map]
      simp only [secondsOf, List.map_nil, List.sum_nil, add_zero]
      rfl
    rw [List.map_cons, notesFrom, List.mem_append, hfirst, ih]
    constructor
    · rintro (hn | ⟨before, s', after, rfl, hn⟩)
      · exact ⟨[], s, slots, rfl, hn⟩
      · refine ⟨s :: before, s', after, rfl, ?_⟩
        rwa [secondsOf_cons, ← add_assoc]
    · rintro ⟨before, s', after, hsplit, hn⟩
      cases before with
      | nil =>
        cases hsplit
        exact Or.inl hn
      | cons s'' before =>
        cases hsplit
        refine Or.inr ⟨before, s', after, rfl, ?_⟩
        rwa [secondsOf_cons, ← add_assoc] at hn

/-- Rests move the clock on and do nothing else. -/
theorem Timeline.pass_rests {rest : Slot} {d : Rat} (hlength : rest.length = .ok d)
    (hrest : rest.tokens = []) (n : Nat) (slots : List Slot) (time : Rat) :
    Timeline.pass i (List.replicate n rest ++ slots) time
      = Timeline.pass i slots (time + n * d) := by
  induction n generalizing time with
  | zero => simp
  | succ n ih =>
    have hclock : time + d + n * d = time + (n + 1 : Nat) * d := by
      push_cast
      ring
    rw [List.replicate_succ, List.cons_append, Timeline.pass, hlength, hrest]
    simp only [Timeline.chord, ih, hclock, List.nil_append]
    cases Timeline.pass i slots (time + (n + 1 : Nat) * d) <;> rfl

/-- The notes of a time line are those of the slots in the order of playing. -/
theorem notes_of_timeline {p : Part} {loops : Int} (h : timeline i p.slots loops = .ok notes) :
    notes = notesFrom 0 ((p.played loops).map i.beat) := by
  by_cases hloops : 1 ≤ loops
  · obtain ⟨bs, hbs⟩ := beats_of_timeline h hloops
    rw [timeline_of_beats hbs] at h
    cases h
    obtain rfl := eq_map_of_mapM (fun s b hb => (Beat.known_of_ofSlot hb).2.2) hbs
    rw [Part.played, List.map_flatten, List.map_replicate]
  · have hzero : loops.toNat = 0 := by omega
    rw [timeline, hzero] at h
    cases h
    rw [Part.played, hzero]
    rfl

/-- A part of half rests and a note behind them. -/
def Part.waiting (rests : Nat) : Part :=
  ⟨"keys", List.replicate rests ⟨"2", .chord []⟩ ++ [⟨"4", .single "c4"⟩]⟩

/-- The waiting part is one note behind its rests. -/
theorem timeline_waiting (n : Nat) :
    timeline ⟨"piano", ⟨"keys", some 1, none⟩⟩ (Part.waiting n).slots 1
      = .ok [⟨60, n * 2, 1⟩] := by
  have hlength : Slot.length ⟨"2", .chord []⟩ = .ok 2 := by cbv
  have hbeats : [⟨"4", .single "c4"⟩].mapM (Beat.ofSlot ⟨"piano", ⟨"keys", some 1, none⟩⟩)
      = .ok [⟨1, [60]⟩] := by cbv
  have hstart : (0 : Rat) ≤ 0 + n * 2 := by positivity
  simp only [timeline, Int.toNat_one, Timeline.loop, Part.waiting,
    Timeline.pass_rests hlength rfl, Timeline.pass_eq hstart, hbeats, Except.map]
  simp [notesFrom, Beat.notesAt]

/-- The waiting part is assembled to a score of one track. -/
theorem assemble_waiting (n : Nat) :
    ∃ e, Ensemble.ofList [⟨"piano", ⟨"keys", some 1, none⟩⟩] = .ok e ∧
      assemble e 1 300 [("lead", .waiting n)]
        = .ok ⟨300, [⟨"piano", 0, some 0, [⟨60, n * 2, 1⟩]⟩]⟩ := by
  let piano : Instrument := ⟨"piano", ⟨"keys", some 1, none⟩⟩
  have hlist : Ensemble.ofList [piano] = .ok ⟨[piano], [("keys", piano)]⟩ := by cbv
  have htrack : trackAfter ⟨[piano], [("keys", piano)]⟩ 1 0 "lead" (.waiting n)
      = .ok ⟨"piano", 0, some 0, [⟨60, n * 2, 1⟩]⟩ := by
    have hfind : Ensemble.findByType ⟨[piano], [("keys", piano)]⟩ "keys" = some piano := by cbv
    have hmake : Track.make piano.name (piano.seatAfter 0).1 (piano.seatAfter 0).2
        = .ok ⟨"piano", 0, some 0, []⟩ := by cbv
    have hwaiting : timeline piano (Part.waiting n).slots 1 = .ok [⟨60, n * 2, 1⟩] :=
      timeline_waiting n
    have htype : (Part.waiting n).instrument = "keys" := rfl
    simp only [trackAfter, htype, hfind, hmake, hwaiting]
    rfl
  exact ⟨_, hlist, assemble_eq_ok_iff.mpr
    ⟨rfl, tracksAfter_cons_eq_ok_iff.mpr ⟨_, [], htrack, rfl, rfl⟩⟩⟩

end Ostinato

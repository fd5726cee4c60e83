import Mathlib
import Ostinato.Proofs.Midi.Placement
import Ostinato.Proofs.Score.Assembly

/-!
# Listening to a track

A listener adds up the distances between messages (`placesFrom`) and pairs each start of a note with
the first stop of its pitch that is not taken yet (`listen`). The main result, `tells_of_assemble`,
says that from an exported track of an assembled score the listener gets back the notes of the
score: all of them, in order, at the same exact times.
-/

namespace Ostinato.Midi

/-- Messages at their ticks. Each stands its distance after the one before it. -/
def placesFrom : Int → List Timed → List Placed
  | _, [] => []
  | tick, m :: ms => ⟨tick + m.delta, m.message⟩ :: placesFrom (tick + m.delta) ms

/-- The tick of the first stop of a pitch, and the messages without this stop. -/
def takeStop? (pitch : Int) : List Placed → Option (Int × List Placed)
  | [] => none
  | q :: qs =>
    if q.message.stops pitch then some (q.tick, qs)
    else (takeStop? pitch qs).map fun r => (r.1, q :: r.2)

/-- A stop that is taken is no longer there. -/
theorem length_lt_of_takeStop? {pitch stop : Int} {qs others : List Placed}
    (h : takeStop? pitch qs = some (stop, others)) : others.length < qs.length := by
  induction qs generalizing others with
  | nil => cases h
  | cons q qs ih =>
    rw [takeStop?] at h
    split at h
    · cases h
      exact Nat.lt_succ_self _
    · obtain ⟨⟨stop', rest⟩, hrest, heq⟩ := Option.map_eq_some_iff.mp h
      cases heq
      exact Nat.succ_lt_succ (ih hrest)

/-- A note as it is heard, with the ticks of its start and its stop. -/
structure Heard where
  pitch : Int
  start : Int
  stop : Int
  deriving DecidableEq, Repr

/-- The notes that are heard, in the order of their starts, and the starts and stops that find no
partner. A start takes the first stop of its pitch behind it that no earlier start has taken. -/
def listen : List Placed → List Heard × List Placed
  | [] => ([], [])
  | q :: qs =>
    match q.message with
    | .noteOn _ pitch _ =>
      match _h : takeStop? pitch qs with
      | some (stop, others) => (⟨pitch, q.tick, stop⟩ :: (listen others).1, (listen others).2)
      | none => ((listen qs).1, q :: (listen qs).2)
    | .noteOff .. => ((listen qs).1, q :: (listen qs).2)
    | _ => listen qs
termination_by qs => qs.length
decreasing_by
  all_goals simp only [List.length_cons]
  all_goals first
    | exact Nat.lt_succ_self _
    | exact (length_lt_of_takeStop? ‹_›).trans (Nat.lt_succ_self _)

/-- The note that is heard, at a tempo and a resolution. -/
def Heard.note (tempo ticksPerBeat : Int) (h : Heard) : NoteEvent where
  pitch := h.pitch
  time := h.start * 60 / (tempo * ticksPerBeat)
  duration := (h.stop - h.start) * 60 / (tempo * ticksPerBeat)

/-- A note as it should be heard. -/
def heard (tempo ticksPerBeat : Int) (n : NoteEvent) : Heard :=
  ⟨n.pitch, ticks n.time tempo ticksPerBeat, ticks n.stop tempo ticksPerBeat⟩

variable {channel tempo ticksPerBeat : Int}

/-! ## Listening step by step -/

/-- The first stop of a pitch is found behind whatever does not stop it. -/
theorem takeStop?_append_cons {pitch : Int} {l : List Placed} {q : Placed} (r : List Placed)
    (hl : ∀ p ∈ l, p.message.stops pitch = false) (hq : q.message.stops pitch = true) :
    takeStop? pitch (l ++ q :: r) = some (q.tick, l ++ r) := by
  induction l with
  | nil => simp [takeStop?, hq]
  | cons p l ih =>
    have hp : p.message.stops pitch = false := hl p List.mem_cons_self
    have hrest := ih fun p' hp' => hl p' (List.mem_cons_of_mem p hp')
    simp [takeStop?, hp, hrest]

/-- A start is heard as a note until the first stop of its pitch. -/
theorem listen_noteOn {tick pitch velocity stop : Int} {qs others : List Placed}
    (h : takeStop? pitch qs = some (stop, others)) :
    listen (⟨tick, .noteOn channel pitch velocity⟩ :: qs)
      = (⟨pitch, tick, stop⟩ :: (listen others).1, (listen others).2) := by
  rw [listen]
  dsimp only
  split
  next stop' others' h' =>
    rw [h] at h'
    cases h'
    rfl
  next h' =>
    rw [h] at h'
    cases h'

/-- What is no start or stop of a note is not heard. -/
theorem listen_append_of_not_isNote {qs : List Placed}
    (h : ∀ q ∈ qs, q.message.isNote = false) (later : List Placed) :
    listen (qs ++ later) = listen later := by
  induction qs with
  | nil => rfl
  | cons q qs ih =>
    have hq := h q List.mem_cons_self
    obtain ⟨tick, message⟩ := q
    rw [List.cons_append, ← ih fun q' hq' => h q' (List.mem_cons_of_mem _ hq')]
    cases message with
    | noteOn => cases hq
    | noteOff => cases hq
    | _ => simp only [listen]

/-- Each note of a chord finds its own stop: the first stop of its pitch, even if the pitch is there
more than once. -/
theorem listen_chord (channel start stop : Int) (pitches : List Int) (later : List Placed) :
    listen (startsAt channel start pitches ++ (stopsAt channel stop pitches ++ later))
      = ((pitches.map fun p => ⟨p, start, stop⟩) ++ (listen later).1, (listen later).2) := by
  induction pitches with
  | nil => rfl
  | cons p ps ih =>
    have hstarts : ∀ q ∈ startsAt channel start ps, q.message.stops p = false := by
      intro q hq
      obtain ⟨p', -, rfl⟩ := List.mem_map.mp hq
      rfl
    have htake := takeStop?_append_cons (q := ⟨stop, .noteOff channel p 0⟩)
      (stopsAt channel stop ps ++ later) hstarts (decide_eq_true rfl)
    rw [startsAt, List.map_cons, ← startsAt, List.cons_append, stopsAt, List.map_cons, ← stopsAt,
      List.cons_append, listen_noteOn htake, ih]
    rfl

/-- Beats that follow one another are heard beat by beat. -/
theorem listen_playFrom (channel tempo ticksPerBeat : Int) (time : Rat) (bs : List Beat)
    (later : List Placed) :
    listen (playFrom channel tempo ticksPerBeat time bs ++ later)
      = ((notesFrom time bs).map (heard tempo ticksPerBeat) ++ (listen later).1,
        (listen later).2) := by
  induction bs generalizing time with
  | nil => rfl
  | cons b bs ih =>
    have hnotes : (b.notesAt time).map (heard tempo ticksPerBeat)
        = b.pitches.map fun p =>
          ⟨p, ticks time tempo ticksPerBeat, ticks (time + b.length) tempo ticksPerBeat⟩ := by
      rw [Beat.notesAt, List.map_map]
      rfl
    rw [playFrom, List.append_assoc, List.append_assoc, listen_chord, ih, notesFrom,
      List.map_append, hnotes, List.append_assoc]

/-! ## The messages of a track at their ticks -/

/-- Distances give the places that they are made from. -/
@[simp]
theorem placesFrom_deltasFrom (tick : Int) (ps : List Placed) :
    placesFrom tick (deltasFrom tick ps) = ps := by
  induction ps generalizing tick with
  | nil => rfl
  | cons p ps ih => simp [deltasFrom, placesFrom, ih]

/-- Places go on from the sum of the distances before. -/
theorem placesFrom_append (tick : Int) (ms ms' : List Timed) :
    placesFrom tick (ms ++ ms')
      = placesFrom tick ms ++ placesFrom (tick + (ms.map Timed.delta).sum) ms' := by
  induction ms generalizing tick with
  | nil => simp [placesFrom]
  | cons m ms ih => simp [placesFrom, ih, add_assoc]

/-- What a track says before its first note, all of it at tick 0. -/
def headPlaces (t : Track) : List Placed :=
  (if t.name = "" then [] else [⟨0, .trackName (Text.latin t.name)⟩]) ++
    t.program.toList.map fun p => ⟨0, .programChange t.channel p⟩

/-- On a track the notes stand between the head and the end, wherever the track ends. -/
theorem placesFrom_ofTrack (tempo ticksPerBeat : Int) (t : Track) :
    ∃ tick, placesFrom 0 (ofTrack tempo ticksPerBeat t)
      = headPlaces t ++
        (placeNotes t.channel tempo ticksPerBeat t.notes ++ [⟨tick, .endOfTrack⟩]) := by
  have hhead : placesFrom 0 (trackHead t) = headPlaces t ∧
      ((trackHead t).map Timed.delta).sum = 0 := by
    by_cases hname : t.name = "" <;> cases hprogram : t.program <;>
      simp [trackHead, headPlaces, hname, hprogram, placesFrom]
  rw [ofTrack, List.append_assoc, placesFrom_append, hhead.1, hhead.2, placesFrom_append, add_zero,
    placesFrom_deltasFrom]
  exact ⟨_, rfl⟩

/-- The head of a track is its name, if it has one, and its program, if it has one. -/
theorem mem_headPlaces {t : Track} {q : Placed} :
    q ∈ headPlaces t ↔ t.name ≠ "" ∧ q = ⟨0, .trackName (Text.latin t.name)⟩ ∨
      ∃ p, t.program = some p ∧ q = ⟨0, .programChange t.channel p⟩ := by
  rw [headPlaces, List.mem_append]
  apply or_congr
  · split_ifs with hname <;> simp [hname]
  · cases t.program <;> simp

/-- What a track says beside its notes it says in front of them. -/
theorem filter_placesFrom_ofTrack {f : Message → Bool} (hnote : ∀ m, m.isNote = true → f m = false)
    (hend : f .endOfTrack = false) (tempo ticksPerBeat : Int) (t : Track) :
    (placesFrom 0 (ofTrack tempo ticksPerBeat t)).filter (fun q => f q.message)
      = (headPlaces t).filter fun q => f q.message := by
  obtain ⟨tick, hplaces⟩ := placesFrom_ofTrack tempo ticksPerBeat t
  have hrest : (placeNotes t.channel tempo ticksPerBeat t.notes
      ++ ([⟨tick, .endOfTrack⟩] : List Placed)).filter (fun q => f q.message) = [] := by
    refine List.filter_eq_nil_iff.mpr fun q hq => ?_
    rw [Bool.not_eq_true]
    rcases List.mem_append.mp hq with hq | hq
    · exact hnote q.message (isNote_of_mem_placeNotes hq)
    · rw [List.mem_singleton.mp hq]
      exact hend
  rw [hplaces, List.filter_append, hrest, List.append_nil]

/-! ## What a listener is told -/

/-- The channel that a message is for, if it is for one. -/
def Message.channel? : Message → Option Int
  | programChange channel _ => some channel
  | noteOn channel _ _ => some channel
  | noteOff channel _ _ => some channel
  | _ => none

/-- Whether a message chooses a program. -/
def Message.isProgramChange : Message → Bool
  | programChange .. => true
  | _ => false

/-- Whether a message names its track. -/
def Message.isTrackName : Message → Bool
  | trackName _ => true
  | _ => false

/-- Messages at their ticks that tell everything about a track. -/
structure Tells (tempo ticksPerBeat : Int) (t : Track) (places : List Placed) : Prop where
  /-- The notes are heard in the order in which the track has them, at their exact times. -/
  notes : (listen places).1.map (Heard.note tempo ticksPerBeat) = t.notes
  /-- Every start has its stop and every stop its start. -/
  paired : (listen places).2 = []
  /-- The program is chosen once, on top of the track, if there is one. -/
  program : places.filter (fun q => q.message.isProgramChange)
    = t.program.toList.map fun p => ⟨0, .programChange t.channel p⟩
  /-- Nothing is said on any other channel. -/
  channel : ∀ q ∈ places, ∀ c ∈ q.message.channel?, c = t.channel
  /-- The name is given once, as far as it can be written, if there is one. -/
  name : places.filter (fun q => q.message.isTrackName)
    = if t.name = "" then [] else [⟨0, .trackName (Text.latin t.name)⟩]

/-- At 480 ticks per beat nothing is rounded, so a note on the grid is heard as it is written. -/
theorem note_heard {n : NoteEvent} (htime : OnGrid n.time) (hstop : OnGrid n.stop)
    (htempo : 0 < tempo) : (heard tempo 480 n).note tempo 480 = n := by
  have hne : (tempo : Rat) ≠ 0 := by exact_mod_cast htempo.ne'
  have hstart : (ticks n.time tempo 480 : Rat) * 60 / (tempo * (480 : Int)) = n.time := by
    rw [ticks_of_onGrid htime, exactTicks]
    field_simp
  have hlength : ((ticks n.stop tempo 480 : Rat) - ticks n.time tempo 480) * 60
      / (tempo * (480 : Int)) = n.duration := by
    rw [ticks_of_onGrid htime, ticks_of_onGrid hstop, exactTicks, exactTicks, NoteEvent.stop]
    field_simp
    ring
  obtain ⟨pitch, time, duration⟩ := n
  simp only [heard, Heard.note, NoteEvent.mk.injEq, true_and]
  exact ⟨hstart, hlength⟩

/-- Valid beats from zero on are heard as the notes of their layout, and nothing is left over. -/
theorem listen_ofTrack {t : Track} {bs : List Beat} (hbs : ∀ b ∈ bs, b.Valid)
    (hnotes : t.notes = notesFrom 0 bs) (htempo : 0 < tempo) :
    listen (placesFrom 0 (ofTrack tempo 480 t)) = (t.notes.map (heard tempo 480), []) := by
  have hlong : ∀ b ∈ bs, 1 < exactTicks b.length tempo 480 :=
    fun b hb => one_lt_exactTicks_of_isLength (hbs b hb).isLength (by omega)
  obtain ⟨tick, hplaces⟩ := placesFrom_ofTrack tempo 480 t
  have hend : listen [⟨tick, .endOfTrack⟩] = ([], []) := by simp only [listen]
  have hhead : ∀ q ∈ headPlaces t, q.message.isNote = false := by
    intro q hq
    obtain ⟨-, rfl⟩ | ⟨p, -, rfl⟩ := mem_headPlaces.mp hq <;> rfl
  rw [hplaces, listen_append_of_not_isNote hhead, hnotes, placeNotes_notesFrom hlong,
    listen_playFrom, hend, List.append_nil]

/-- Every message of a track that is for a channel is for the channel of the track. -/
theorem channel_of_mem_placesFrom_ofTrack {t : Track} {q : Placed}
    (hq : q ∈ placesFrom 0 (ofTrack tempo ticksPerBeat t)) {c : Int}
    (hc : q.message.channel? = some c) : c = t.channel := by
  obtain ⟨tick, hplaces⟩ := placesFrom_ofTrack tempo ticksPerBeat t
  rw [hplaces, List.mem_append, List.mem_append, mem_headPlaces, mem_placeNotes,
    List.mem_singleton] at hq
  obtain (⟨-, rfl⟩ | ⟨p, -, rfl⟩) | (⟨n, -, rfl | rfl⟩ | rfl) := hq
  all_goals cases hc
  all_goals rfl

/-- An exported track tells all of the track. -/
theorem tells_ofTrack {t : Track} {bs : List Beat} (hbs : ∀ b ∈ bs, b.Valid)
    (hnotes : t.notes = notesFrom 0 bs) (htempo : 0 < tempo) :
    Tells tempo 480 t (placesFrom 0 (ofTrack tempo 480 t)) := by
  have hlisten := listen_ofTrack hbs hnotes htempo
  refine ⟨?notes, ?paired, ?program,
    fun q hq c hc => channel_of_mem_placesFrom_ofTrack hq hc, ?name⟩
  case notes =>
    rw [hlisten, List.map_map]
    refine (List.map_congr_left fun n hn => ?_).trans (List.map_id _)
    obtain ⟨hgrid, hgrid'⟩ := onGrid_of_mem_notesFrom onGrid_zero hbs (hnotes ▸ hn)
    exact note_heard hgrid hgrid' htempo
  case paired => rw [hlisten]
  case program =>
    rw [filter_placesFrom_ofTrack (fun m hm => by cases m <;> first | rfl | cases hm) rfl]
    by_cases hname : t.name = "" <;> cases hprogram : t.program <;>
      simp [headPlaces, hname, hprogram, Message.isProgramChange]
  case name =>
    rw [filter_placesFrom_ofTrack (fun m hm => by cases m <;> first | rfl | cases hm) rfl]
    by_cases hname : t.name = "" <;> cases hprogram : t.program <;>
      simp [headPlaces, hname, hprogram, Message.isTrackName]

/-- Export loses nothing of an assembled score: at 480 ticks per beat the messages of each of its
tracks tell everything about the track, at every tempo and for every number of loops. -/
theorem tells_of_assemble {e : Ensemble} {loops tempo : Int} {parts : List (String × Part)}
    {s : Score} {t : Track} (h : assemble e loops tempo parts = .ok s) (ht : t ∈ s.tracks)
    (htempo : 0 < tempo) : Tells tempo 480 t (placesFrom 0 (ofTrack tempo 480 t)) := by
  obtain ⟨i, slots, hnotes⟩ := exists_timeline_of_mem_tracks h ht
  obtain ⟨bs, hbs, hlayout⟩ := exists_beats_of_timeline hnotes
  exact tells_ofTrack hbs hlayout htempo

/-- Two drum tokens with one pitch, struck together in each of two loops, are heard as four
notes. -/
theorem tells_of_assemble_drums :
    ∃ e s t, Ensemble.ofList [⟨"kit", ⟨"drums", none, some [("k", 36), ("t", 36)]⟩⟩] = .ok e ∧
      assemble e 2 120 [("beat", ⟨"drums", [⟨"4.", .chord ["k", "t"]⟩, ⟨"8", .chord []⟩]⟩)]
        = .ok s ∧
      t ∈ s.tracks ∧
      t.notes = [⟨36, 0, 3 / 2⟩, ⟨36, 0, 3 / 2⟩, ⟨36, 2, 3 / 2⟩, ⟨36, 2, 3 / 2⟩] ∧
      Tells 120 480 t (placesFrom 0 (ofTrack 120 480 t)) := by
  let kit : Instrument := ⟨"kit", ⟨"drums", none, some [("k", 36), ("t", 36)]⟩⟩
  have hassemble : assemble ⟨[kit], [("drums", kit)]⟩ 2 120
      [("beat", ⟨"drums", [⟨"4.", .chord ["k", "t"]⟩, ⟨"8", .chord []⟩]⟩)]
      = .ok ⟨120, [⟨"kit", 9, none,
        [⟨36, 0, 3 / 2⟩, ⟨36, 0, 3 / 2⟩, ⟨36, 2, 3 / 2⟩, ⟨36, 2, 3 / 2⟩]⟩]⟩ := by
    cbv
  have hmem := List.mem_singleton_self (⟨"kit", 9, none,
    [⟨36, 0, 3 / 2⟩, ⟨36, 0, 3 / 2⟩, ⟨36, 2, 3 / 2⟩, ⟨36, 2, 3 / 2⟩]⟩ : Track)
  exact ⟨_, _, _, by cbv, hassemble, hmem, rfl, tells_of_assemble hassemble hmem (by decide)⟩

end Ostinato.Midi

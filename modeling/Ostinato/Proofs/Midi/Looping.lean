import Mathlib
import Ostinato.Proofs.Midi.Placement

/-!
# Loops on a track

A part that is played several times gives the messages of one pass, several times over. The sort of
a track sees the notes of all passes at once, but no pass reaches beyond the tick on which the next
one begins, so it sorts each pass for itself. What is left of the seam is a distance: the first
message of a pass has the rests at the end of the part in front of it. The main result is
`messages_of_loops`.
-/

namespace Ostinato

/-- The slots up to the last one that sounds. -/
def Part.sounding (slots : List Slot) : List Slot := slots.rdropWhile fun s => s.tokens.isEmpty

/-- The beats up to the last one that sounds. -/
def Beat.sounding (bs : List Beat) : List Beat := bs.rdropWhile fun b => b.pitches.isEmpty

/-- A note that is played later. -/
def NoteEvent.delay (d : Rat) (n : NoteEvent) : NoteEvent := { n with time := n.time + d }

variable {i : Instrument}

/-! ## The beats of a part -/

/-- A beat sounds no pitches just if its slot has no tokens. -/
theorem Beat.isEmpty_pitches_of_ofSlot {s : Slot} {b : Beat} (h : Beat.ofSlot i s = .ok b) :
    b.pitches.isEmpty = s.tokens.isEmpty := by
  obtain ⟨-, hpitches⟩ := Beat.ofSlot_eq_ok_iff.mp h
  rw [Bool.eq_iff_iff, List.isEmpty_iff_length_eq_zero, List.isEmpty_iff_length_eq_zero,
    length_of_mapM hpitches]

/-- A slot is silent if its beat is, so both lists lose the same end. -/
theorem Beat.sounding_of_mapM {slots : List Slot} {bs : List Beat}
    (h : slots.mapM (Beat.ofSlot i) = .ok bs) :
    (Part.sounding slots).mapM (Beat.ofSlot i) = .ok (Beat.sounding bs) := by
  induction slots using List.reverseRecOn generalizing bs with
  | nil =>
    cases h
    rfl
  | append_singleton slots s ih =>
    obtain ⟨init, last, hinit, hlast, rfl⟩ := mapM_append_eq_ok_iff.mp h
    obtain ⟨b, hb, rfl⟩ := mapM_singleton_eq_ok_iff.mp hlast
    have hsilent := Beat.isEmpty_pitches_of_ofSlot hb
    by_cases hs : s.tokens.isEmpty = true
    · rw [Part.sounding, List.rdropWhile_concat_pos _ slots s hs, Beat.sounding,
        List.rdropWhile_concat_pos _ init b (hsilent.trans hs)]
      exact ih hinit
    · rw [Part.sounding, List.rdropWhile_concat_neg _ slots s hs, Beat.sounding,
        List.rdropWhile_concat_neg _ init b (hsilent ▸ hs)]
      exact h

/-- Notes that begin later are the same notes, delayed. -/
theorem notesFrom_add (time d : Rat) (bs : List Beat) :
    notesFrom (time + d) bs = (notesFrom time bs).map (NoteEvent.delay d) := by
  induction bs generalizing time with
  | nil => rfl
  | cons b bs ih =>
    rw [notesFrom, notesFrom, List.map_append, ← ih, add_right_comm]
    simp [Beat.notesAt, NoteEvent.delay]

/-- The notes of several passes are the notes of one, each time later by the length of a pass. -/
theorem notesFrom_replicate (n : Nat) (bs : List Beat) :
    notesFrom 0 (List.replicate n bs).flatten
      = (List.range n).flatMap
          fun k : Nat => (notesFrom 0 bs).map (NoteEvent.delay (k * span bs)) := by
  simp only [notesFrom_flatten_replicate, notesFrom_add]

namespace Midi

variable {channel tempo ticksPerBeat : Int}

/-! ## Messages that come later -/

/-- A message on a later tick. -/
def Placed.delay (d : Int) (q : Placed) : Placed := { q with tick := q.tick + d }

/-- To delay by nothing changes nothing. -/
@[simp]
theorem Placed.map_delay_zero (qs : List Placed) : qs.map (Placed.delay 0) = qs := by
  induction qs with
  | nil => rfl
  | cons q qs ih =>
    rw [List.map_cons, ih, Placed.delay, add_zero]

/-- Delayed starts are starts at a later tick. -/
@[simp]
theorem map_delay_startsAt (channel tick d : Int) (pitches : List Int) :
    (startsAt channel tick pitches).map (Placed.delay d) = startsAt channel (tick + d) pitches := by
  simp only [startsAt, List.map_map]
  rfl

/-- Delayed stops are stops at a later tick. -/
@[simp]
theorem map_delay_stopsAt (channel tick d : Int) (pitches : List Int) :
    (stopsAt channel tick pitches).map (Placed.delay d) = stopsAt channel (tick + d) pitches := by
  simp only [stopsAt, List.map_map]
  rfl

/-- Messages of which the first stands further from what comes before it. -/
def delayFirst (d : Int) : List Timed → List Timed
  | [] => []
  | m :: ms => ⟨m.delta + d, m.message⟩ :: ms

/-- The tick of the last of some messages, or the tick before them. -/
def lastTick : Int → List Placed → Int
  | tick, [] => tick
  | _, q :: qs => lastTick q.tick qs

/-- The last tick of two lists is that of the second, or else that of the first. -/
theorem lastTick_append (tick : Int) (ps qs : List Placed) :
    lastTick tick (ps ++ qs) = lastTick (lastTick tick ps) qs := by
  induction ps generalizing tick with
  | nil => rfl
  | cons p ps ih => exact ih p.tick

/-- A delay delays the last tick. -/
theorem lastTick_map_delay (tick d : Int) (qs : List Placed) :
    lastTick (tick + d) (qs.map (Placed.delay d)) = lastTick tick qs + d := by
  induction qs generalizing tick with
  | nil => rfl
  | cons q qs ih => exact ih q.tick

/-- Only if there are no messages does it matter where they begin. -/
theorem lastTick_of_ne_nil {qs : List Placed} (h : qs ≠ []) (tick tick' : Int) :
    lastTick tick qs = lastTick tick' qs := by
  cases qs with
  | nil => exact absurd rfl h
  | cons q qs => rfl

/-- Distances go on from the last tick of what was before. -/
theorem deltasFrom_append (tick : Int) (ps qs : List Placed) :
    deltasFrom tick (ps ++ qs) = deltasFrom tick ps ++ deltasFrom (lastTick tick ps) qs := by
  induction ps generalizing tick with
  | nil => rfl
  | cons p ps ih => simp [deltasFrom, lastTick, ih]

/-- Distances stay when all is delayed alike. -/
theorem deltasFrom_map_delay_add (tick d : Int) (qs : List Placed) :
    deltasFrom (tick + d) (qs.map (Placed.delay d)) = deltasFrom tick qs := by
  induction qs generalizing tick with
  | nil => rfl
  | cons q qs ih =>
    have hdelta : q.tick + d - (tick + d) = q.tick - tick := by ring
    simp only [List.map_cons, deltasFrom, Placed.delay, hdelta] at ih ⊢
    rw [ih]

/-- Of the distances between delayed messages only the first one tells of the delay. -/
theorem deltasFrom_map_delay (tick d : Int) (qs : List Placed) :
    deltasFrom tick (qs.map (Placed.delay d)) = delayFirst (d - tick) (deltasFrom 0 qs) := by
  cases qs with
  | nil => rfl
  | cons q qs =>
    have hdelta : q.tick + d - tick = q.tick - 0 + (d - tick) := by ring
    rw [List.map_cons, deltasFrom, deltasFrom, delayFirst, Placed.delay]
    simp only [hdelta]
    rw [deltasFrom_map_delay_add]

/-! ## Passes -/

/-- Messages that are repeated every so many ticks. -/
def repeated (n : Nat) (period : Int) (qs : List Placed) : List Placed :=
  (List.range n).flatMap fun k : Nat => qs.map (Placed.delay (k * period))

/-- The messages of one pass, followed by those of further passes, before each of which there is a
rest. -/
def passes (n : Nat) (rest : Int) (once : List Timed) : List Timed :=
  once ++ (List.replicate (n - 1) (delayFirst rest once)).flatten

/-- One more repetition comes at the end, a period later. -/
theorem repeated_succ (n : Nat) (period : Int) (qs : List Placed) :
    repeated (n + 1) period qs = repeated n period qs ++ qs.map (Placed.delay (n * period)) := by
  rw [repeated, List.range_succ, List.flatMap_append, List.flatMap_singleton, ← repeated]

/-- One more pass comes at the end, behind the rest. -/
theorem passes_succ (n : Nat) (rest : Int) (once : List Timed) :
    passes (n + 2) rest once = passes (n + 1) rest once ++ delayFirst rest once := by
  simp [passes, List.replicate_succ', List.append_assoc]

/-- Each repetition delays the last tick by a period. -/
theorem lastTick_repeated {qs : List Placed} (h : qs ≠ []) (n : Nat) (period : Int) :
    lastTick 0 (repeated (n + 1) period qs) = lastTick 0 qs + n * period := by
  have hdelayed : qs.map (Placed.delay (n * period)) ≠ [] := by simpa using h
  rw [repeated_succ, lastTick_append, lastTick_of_ne_nil hdelayed _ (0 + n * period),
    lastTick_map_delay]

/-- Repeated messages are passes. The rest before each of them is what the last message leaves of
the period. -/
theorem deltasFrom_repeated (n : Nat) (period : Int) (qs : List Placed) :
    deltasFrom 0 (repeated (n + 1) period qs)
      = passes (n + 1) (period - lastTick 0 qs) (deltasFrom 0 qs) := by
  by_cases hqs : qs = []
  · have hnothing : repeated (n + 1) period [] = [] := by simp [repeated]
    have hsilent : ∀ rest, passes (n + 1) rest [] = [] := by simp [passes, delayFirst]
    rw [hqs, hnothing, deltasFrom, hsilent]
  · induction n with
    | zero => simp [repeated, passes]
    | succ n ih =>
      have hrest : ((n + 1 : Nat) : Int) * period - (lastTick 0 qs + n * period)
          = period - lastTick 0 qs := by
        push_cast
        ring
      rw [repeated_succ, deltasFrom_append, ih, deltasFrom_map_delay, lastTick_repeated hqs, hrest,
        passes_succ]

/-! ## The messages of beats -/

/-- Beats on the grid give the same messages when they begin later on the grid. -/
theorem playFrom_add {time d : Rat} {bs : List Beat} (htime : OnGrid time) (hd : OnGrid d)
    (hbs : ∀ b ∈ bs, b.Valid) (channel tempo : Int) :
    playFrom channel tempo 480 (time + d) bs
      = (playFrom channel tempo 480 time bs).map (Placed.delay (ticks d tempo 480)) := by
  induction bs generalizing time with
  | nil => rfl
  | cons b bs ih =>
    have hstop : OnGrid (time + b.length) := htime.add (hbs b List.mem_cons_self).isLength.onGrid
    rw [playFrom, playFrom, List.map_append, List.map_append, add_right_comm,
      ih hstop fun b' hb' => hbs b' (List.mem_cons_of_mem b hb'), ticks_add_of_onGrid htime hd,
      ticks_add_of_onGrid hstop hd, map_delay_startsAt, map_delay_stopsAt]

/-- Beats are played on from the end of those before them. -/
theorem playFrom_append (channel tempo ticksPerBeat : Int) (time : Rat) (bs cs : List Beat) :
    playFrom channel tempo ticksPerBeat time (bs ++ cs)
      = playFrom channel tempo ticksPerBeat time bs
        ++ playFrom channel tempo ticksPerBeat (time + span bs) cs := by
  induction bs generalizing time with
  | nil => simp [playFrom, span]
  | cons b bs ih =>
    have hspan : time + b.length + span bs = time + span (b :: bs) := by
      simp only [span, List.map_cons, List.sum_cons]
      ring
    simp only [List.cons_append, playFrom, ih, hspan, List.append_assoc]

/-- The last tick of some stops is theirs. -/
theorem lastTick_stopsAt (tick channel stop p : Int) (ps : List Int) :
    lastTick tick (stopsAt channel stop (p :: ps)) = stop := by
  induction ps generalizing tick p with
  | nil => rfl
  | cons p' ps ih => exact ih stop p'

/-- The last message of beats is on the tick on which the last sounding one ends. -/
theorem lastTick_playFrom (channel tempo ticksPerBeat : Int) (bs : List Beat) :
    lastTick 0 (playFrom channel tempo ticksPerBeat 0 bs)
      = ticks (span (Beat.sounding bs)) tempo ticksPerBeat := by
  induction bs using List.reverseRecOn with
  | nil => simp [playFrom, lastTick, Beat.sounding, span]
  | append_singleton bs b ih =>
    rw [playFrom_append, lastTick_append, ih, zero_add, playFrom, playFrom, List.append_nil]
    cases hpitches : b.pitches with
    | nil =>
      have hsilent : b.pitches.isEmpty = true := by rw [hpitches]; rfl
      have hsounding : Beat.sounding (bs ++ [b]) = Beat.sounding bs :=
        List.rdropWhile_concat_pos _ bs b hsilent
      rw [hsounding]
      rfl
    | cons p ps =>
      have hsounds : ¬ b.pitches.isEmpty = true := by rw [hpitches]; exact Bool.false_ne_true
      have hsounding : Beat.sounding (bs ++ [b]) = bs ++ [b] :=
        List.rdropWhile_concat_neg _ bs b hsounds
      have hspan : span bs + b.length = span (bs ++ [b]) := by simp [span]
      rw [lastTick_append, lastTick_stopsAt, hsounding, hspan]

/-- Beats that are played several times are those played once, repeated with their span in ticks. -/
theorem playFrom_replicate {bs : List Beat} (hbs : ∀ b ∈ bs, b.Valid) (n : Nat)
    (channel tempo : Int) :
    playFrom channel tempo 480 0 (List.replicate n bs).flatten
      = repeated n (ticks (span bs) tempo 480) (playFrom channel tempo 480 0 bs) := by
  have hspan := onGrid_span hbs
  induction n with
  | zero => rfl
  | succ n ih =>
    rw [List.replicate_succ', List.flatten_append, List.flatten_singleton, playFrom_append, ih,
      span_replicate, playFrom_add onGrid_zero (hspan.natCast_mul n) hbs,
      ticks_natCast_mul_of_onGrid hspan, repeated_succ]

/-! ## The messages of loops -/

/-- The messages of a track that start or stop its notes. -/
def noteMessages (tempo ticksPerBeat : Int) (t : Track) : List Timed :=
  (ofTrack tempo ticksPerBeat t).filter fun m => m.message.isNote

/-- A valid beat is longer than a tick. -/
theorem one_lt_exactTicks_of_valid {bs : List Beat} (hbs : ∀ b ∈ bs, b.Valid) (htempo : 0 < tempo) :
    ∀ b ∈ bs, 1 < exactTicks b.length tempo 480 := by
  intro b hb
  exact one_lt_exactTicks_of_isLength (hbs b hb).isLength (by omega)

/-- Beats that are played several times are sorted pass by pass. -/
theorem placeNotes_replicate {bs : List Beat} (hbs : ∀ b ∈ bs, b.Valid) (htempo : 0 < tempo)
    (channel : Int) (n : Nat) :
    placeNotes channel tempo 480 (notesFrom 0 (List.replicate n bs).flatten)
      = repeated n (ticks (span bs) tempo 480)
          (placeNotes channel tempo 480 (notesFrom 0 bs)) := by
  have hlong := one_lt_exactTicks_of_valid hbs htempo
  have hlong' : ∀ b ∈ (List.replicate n bs).flatten, 1 < exactTicks b.length tempo 480 := by
    intro b hb
    obtain ⟨pass, hpass, hb⟩ := List.mem_flatten.mp hb
    rw [List.eq_of_mem_replicate hpass] at hb
    exact hlong b hb
  rw [placeNotes_notesFrom hlong', placeNotes_notesFrom hlong, playFrom_replicate hbs]

/-- Sorting the notes of a later pass is the same as sorting those of the first one. -/
theorem placeNotes_delay {bs : List Beat} (hbs : ∀ b ∈ bs, b.Valid) (htempo : 0 < tempo)
    (channel : Int) (k : Nat) :
    placeNotes channel tempo 480 ((notesFrom 0 bs).map (NoteEvent.delay (k * span bs)))
      = (placeNotes channel tempo 480 (notesFrom 0 bs)).map
          (Placed.delay (k * ticks (span bs) tempo 480)) := by
  have hlong := one_lt_exactTicks_of_valid hbs htempo
  have hspan := onGrid_span hbs
  rw [← notesFrom_add, placeNotes_notesFrom hlong, placeNotes_notesFrom hlong,
    playFrom_add onGrid_zero (hspan.natCast_mul k) hbs, ticks_natCast_mul_of_onGrid hspan]

/-- The messages of several passes are those of one, with the rest in front of each but the
first. -/
theorem noteMessages_replicate {bs : List Beat} (hbs : ∀ b ∈ bs, b.Valid) (htempo : 0 < tempo)
    (t : Track) (n : Nat) :
    noteMessages tempo 480 { t with notes := notesFrom 0 (List.replicate (n + 1) bs).flatten }
      = passes (n + 1)
          (ticks (span bs) tempo 480 - ticks (span (Beat.sounding bs)) tempo 480)
          (noteMessages tempo 480 { t with notes := notesFrom 0 bs }) := by
  have hlong := one_lt_exactTicks_of_valid hbs htempo
  rw [noteMessages, filter_isNote_ofTrack, noteMessages, filter_isNote_ofTrack]
  dsimp only
  rw [placeNotes_replicate hbs htempo, deltasFrom_repeated, placeNotes_notesFrom hlong,
    lastTick_playFrom]

/-- Loops follow one another without a seam. At 480 ticks per beat a part that is played `n` times
gives the messages of one pass `n` times over, alike in everything but this: from the second pass on
the first message stands further from what comes before it, by the rests at the end of the part. So
a further pass changes nothing of those before it. And since the sort of the whole track is that of
each pass for itself, no message goes from one pass to another. -/
theorem messages_of_loops {slots : List Slot} {loops : Int} {notes : List NoteEvent}
    (h : timeline i slots loops = .ok notes) (hloops : 1 ≤ loops) (htempo : 0 < tempo)
    (t : Track) :
    ∃ once length sounding,
      timeline i slots 1 = .ok once ∧
      Part.totalLength slots = .ok length ∧
      Part.totalLength (Part.sounding slots) = .ok sounding ∧
      ∀ n : Nat, 1 ≤ n → ∃ many more,
        timeline i slots n = .ok many ∧
        timeline i slots (n + 1 : Nat) = .ok more ∧
        noteMessages tempo 480 { t with notes := many }
          = passes n (ticks length tempo 480 - ticks sounding tempo 480)
              (noteMessages tempo 480 { t with notes := once }) ∧
        noteMessages tempo 480 { t with notes := many }
          <+: noteMessages tempo 480 { t with notes := more } ∧
        many = (List.range n).flatMap (fun k : Nat => once.map (NoteEvent.delay (k * length))) ∧
        placeNotes t.channel tempo 480 many
          = (List.range n).flatMap fun k : Nat =>
              placeNotes t.channel tempo 480 (once.map (NoteEvent.delay (k * length))) := by
  obtain ⟨bs, hbs⟩ := beats_of_timeline h hloops
  have hvalid := Beat.valid_of_mapM hbs
  have honce : timeline i slots 1 = .ok (notesFrom 0 bs) := by
    have htimeline := timeline_of_beats hbs 1
    simpa using htimeline
  refine ⟨notesFrom 0 bs, span bs, span (Beat.sounding bs), honce, Part.totalLength_of_beats hbs,
    Part.totalLength_of_beats (Beat.sounding_of_mapM hbs), fun n hn => ?_⟩
  obtain ⟨n, rfl⟩ := Nat.exists_eq_add_of_le' hn
  refine ⟨_, _, timeline_of_beats hbs _, timeline_of_beats hbs _, ?messages, ?onward, ?notes, ?sort⟩
  case messages => exact noteMessages_replicate hvalid htempo t n
  case onward =>
    rw [Int.toNat_natCast, Int.toNat_natCast, noteMessages_replicate hvalid htempo,
      noteMessages_replicate hvalid htempo, passes_succ]
    exact List.prefix_append _ _
  case notes =>
    rw [Int.toNat_natCast]
    exact notesFrom_replicate (n + 1) bs
  case sort =>
    rw [Int.toNat_natCast, placeNotes_replicate hvalid htempo, repeated]
    simp only [placeNotes_delay hvalid htempo]

/-- A part that begins with a rest and ends with a sixteenth rest, played three times. At tempo 120
each later pass has 240 more ticks in front of it. -/
theorem messages_of_loops_between_rests :
    ∃ once thrice,
      timeline ⟨"piano", ⟨"keys", some 1, none⟩⟩
        [⟨"8", .chord []⟩, ⟨"4", .single "c4"⟩, ⟨"8.", .chord ["c4", "e4"]⟩, ⟨"16", .chord []⟩] 1
          = .ok once ∧
      timeline ⟨"piano", ⟨"keys", some 1, none⟩⟩
        [⟨"8", .chord []⟩, ⟨"4", .single "c4"⟩, ⟨"8.", .chord ["c4", "e4"]⟩, ⟨"16", .chord []⟩] 3
          = .ok thrice ∧
      noteMessages 120 480 ⟨"piano", 0, some 0, thrice⟩
        = passes 3 240 (noteMessages 120 480 ⟨"piano", 0, some 0, once⟩) ∧
      (noteMessages 120 480 ⟨"piano", 0, some 0, once⟩).map Timed.delta
        = [480, 960, 0, 0, 720, 0] := by
  let piano : Instrument := ⟨"piano", ⟨"keys", some 1, none⟩⟩
  let slots : List Slot :=
    [⟨"8", .chord []⟩, ⟨"4", .single "c4"⟩, ⟨"8.", .chord ["c4", "e4"]⟩, ⟨"16", .chord []⟩]
  have hplays : timeline piano slots 1
      = .ok [⟨60, 1 / 2, 1⟩, ⟨60, 3 / 2, 3 / 4⟩, ⟨64, 3 / 2, 3 / 4⟩] := by cbv
  have hlength : Part.totalLength slots = .ok (5 / 2) := by cbv
  have hsounding : Part.totalLength (Part.sounding slots) = .ok (9 / 4) := by cbv
  obtain ⟨once, length, sounding, honce, hlength', hsounding', hloops⟩ :=
    messages_of_loops hplays le_rfl (by decide : (0 : Int) < 120) ⟨"piano", 0, some 0, []⟩
  obtain ⟨thrice, -, hthrice, -, hmessages, -⟩ := hloops 3 (by decide)
  have hrest : ticks (5 / 2) 120 480 - ticks (9 / 4) 120 480 = 240 := by cbv
  rw [hlength] at hlength'
  rw [hsounding] at hsounding'
  cases hlength'
  cases hsounding'
  rw [hrest] at hmessages
  refine ⟨once, thrice, honce, hthrice, hmessages, ?_⟩
  rw [hplays] at honce
  cases honce
  cbv

end Midi

end Ostinato

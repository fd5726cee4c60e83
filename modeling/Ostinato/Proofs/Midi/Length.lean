import Mathlib
import Ostinato.Proofs.Midi.Balance
import Ostinato.Proofs.Score.Totals

/-!
# The length of a file

The distances on a track add up to the tick of its last message. The sort puts a stop there, the
latest of all, since no note starts later than it stops. Rounding to ticks keeps times in order, so
it makes no difference whether the latest end is sought before or after: `length_of_file` says that
a file is as long as its score, and with the totals of assembled scores what its parts have to do
with that.
-/

namespace Ostinato.Midi

/-- The ticks that some messages take: the sum of their distances. -/
def tickLength (ms : List Timed) : Int := (ms.map Timed.delta).sum

/-- Whether a message starts a note. -/
def Message.isNoteOn : Message → Bool
  | noteOn .. => true
  | _ => false

variable {tempo ticksPerBeat : Int}

/-! ## The last tick -/

/-- Distances add up to the way from the first tick to the last. -/
theorem tickLength_deltasFrom (tick : Int) (ps : List Placed) :
    tickLength (deltasFrom tick ps) = lastTick tick ps - tick := by
  induction ps generalizing tick with
  | nil => exact (sub_self tick).symm
  | cons p ps ih =>
    rw [deltasFrom, tickLength, List.map_cons, List.sum_cons, ← tickLength, ih, lastTick]
    ring

/-- The last tick is that of one of the messages. -/
theorem exists_tick_eq_lastTick {ps : List Placed} (h : ps ≠ []) (tick : Int) :
    ∃ q ∈ ps, q.tick = lastTick tick ps := by
  induction ps generalizing tick with
  | nil => exact absurd rfl h
  | cons p ps ih =>
    by_cases hps : ps = []
    · exact ⟨p, List.mem_cons_self, by rw [hps]; rfl⟩
    · obtain ⟨q, hq, htick⟩ := ih hps p.tick
      exact ⟨q, List.mem_cons_of_mem p hq, htick⟩

/-- Of messages in order none is behind the last. -/
theorem tick_le_lastTick {ps : List Placed} (hsorted : ps.Pairwise fun a b => a.before b = true)
    {q : Placed} (h : q ∈ ps) (tick : Int) : q.tick ≤ lastTick tick ps := by
  induction ps generalizing tick q with
  | nil => cases h
  | cons p ps ih =>
    obtain ⟨hfirst, hrest⟩ := List.pairwise_cons.mp hsorted
    rcases List.mem_cons.mp h with rfl | h
    · by_cases hps : ps = []
      · rw [hps]
        exact le_rfl
      · obtain ⟨last, hlast, htick⟩ := exists_tick_eq_lastTick hps q.tick
        rw [lastTick, ← htick]
        exact Placed.tick_le_of_before (hfirst last hlast)
    · exact ih hrest h p.tick

/-- The last message of some notes is a stop, and the latest. -/
theorem lastTick_placeNotes {notes : List NoteEvent} (hnotes : ∀ n ∈ notes, n.Valid)
    (htempo : 0 < tempo) (hticks : 0 < ticksPerBeat) (channel : Int) :
    lastTick 0 (placeNotes channel tempo ticksPerBeat notes)
      = greatest (notes.map fun n => ticks n.stop tempo ticksPerBeat) := by
  by_cases hnil : notes = []
  · rw [hnil]
    simp [placeNotes, lastTick]
  · have hplaced : ∀ n ∈ notes,
        (⟨ticks n.stop tempo ticksPerBeat, .noteOff channel n.pitch 0⟩ : Placed)
          ∈ placeNotes channel tempo ticksPerBeat notes := fun n hn =>
      mem_placeNotes.mpr ⟨n, hn, Or.inr rfl⟩
    have hle : ∀ n ∈ notes, ticks n.stop tempo ticksPerBeat
        ≤ lastTick 0 (placeNotes channel tempo ticksPerBeat notes) := fun n hn =>
      tick_le_lastTick (placeNotes_sorted ..) (hplaced n hn) 0
    obtain ⟨n₀, hn₀⟩ := List.exists_mem_of_ne_nil notes hnil
    obtain ⟨q, hq, hlast⟩ := exists_tick_eq_lastTick (List.ne_nil_of_mem (hplaced n₀ hn₀)) 0
    -- if the last message is a start, its note stops on the same tick
    obtain ⟨n, hn, htick⟩ : ∃ n ∈ notes, q.tick ≤ ticks n.stop tempo ticksPerBeat := by
      obtain ⟨n, hn, rfl | rfl⟩ := mem_placeNotes.mp hq
      · refine ⟨n, hn, ticks_mono htempo.le hticks.le ?_⟩
        exact le_add_of_nonneg_right (hnotes n hn).duration_pos.le
      · exact ⟨n, hn, le_rfl⟩
    have hstop := le_antisymm (hle n hn) (hlast ▸ htick)
    symm
    refine greatest_of_mem (hstop ▸ List.mem_map_of_mem hn) fun y hy => ?_
    obtain ⟨n', hn', rfl⟩ := List.mem_map.mp hy
    exact hle n' hn'

/-! ## Tracks -/

/-- The lengths of two lists of messages add up. -/
theorem tickLength_append (ms ms' : List Timed) :
    tickLength (ms ++ ms') = tickLength ms + tickLength ms' := by
  rw [tickLength, List.map_append, List.sum_append, ← tickLength, ← tickLength]

/-- What stands in front of the notes takes no time. -/
theorem tickLength_trackHead (t : Track) : tickLength (trackHead t) = 0 := by
  cases hprogram : t.program <;> by_cases hname : t.name = "" <;>
    simp [trackHead, tickLength, hprogram, hname]

/-- A track is as long as the latest end of its notes says. -/
theorem tickLength_ofTrack {t : Track} (hnotes : ∀ n ∈ t.notes, n.Valid) (htempo : 0 < tempo)
    (hticks : 0 < ticksPerBeat) :
    tickLength (ofTrack tempo ticksPerBeat t)
      = greatest (t.notes.map fun n => ticks n.stop tempo ticksPerBeat) := by
  have hend : tickLength [⟨0, .endOfTrack⟩] = 0 := rfl
  rw [ofTrack, tickLength_append, tickLength_append, tickLength_trackHead, hend,
    tickLength_deltasFrom, lastTick_placeNotes hnotes htempo hticks]
  ring

/-- The length of an exported track is not negative. -/
theorem tickLength_ofTrack_nonneg {t : Track} (hnotes : ∀ n ∈ t.notes, n.Valid) (htempo : 0 < tempo)
    (hticks : 0 < ticksPerBeat) : 0 ≤ tickLength (ofTrack tempo ticksPerBeat t) := by
  rw [tickLength_ofTrack hnotes htempo hticks]
  refine greatest_nonneg fun d hd => ?_
  obtain ⟨n, hn, rfl⟩ := List.mem_map.mp hd
  exact ticks_nonneg htempo.le hticks.le (hnotes n hn).stop_nonneg

/-- The longest track is as long as the score. -/
theorem greatest_tickLength {s : Score} (hs : s.Valid) (htempo : 0 < tempo)
    (hticks : 0 < ticksPerBeat) :
    greatest (s.tracks.map fun t => tickLength (ofTrack tempo ticksPerBeat t))
      = ticks s.duration tempo ticksPerBeat := by
  have hmono : Monotone fun time => ticks time tempo ticksPerBeat := fun _ _ h =>
    ticks_mono htempo.le hticks.le h
  have htrack : ∀ t ∈ s.tracks, tickLength (ofTrack tempo ticksPerBeat t)
      = ticks (greatest (t.notes.map NoteEvent.stop)) tempo ticksPerBeat := by
    intro t ht
    rw [tickLength_ofTrack (hs t ht).notes htempo hticks,
      ← greatest_map hmono (ticks_zero tempo ticksPerBeat), List.map_map]
    rfl
  rw [s.duration_eq_greatest hs, ← greatest_map hmono (ticks_zero tempo ticksPerBeat),
    List.map_map, List.map_congr_left htrack]
  rfl

/-! ## Files -/

/-- A track starts each of its notes once. -/
theorem countP_isNoteOn_ofTrack (tempo ticksPerBeat : Int) (t : Track) :
    (ofTrack tempo ticksPerBeat t).countP (fun m => m.message.isNoteOn) = t.notes.length := by
  have hnotes : (ofTrack tempo ticksPerBeat t).countP (fun m => m.message.isNoteOn)
      = ((ofTrack tempo ticksPerBeat t).filter fun m => m.message.isNote).countP
          fun m => m.message.isNoteOn := by
    rw [List.countP_filter]
    refine List.countP_congr fun m _ => ?_
    cases m.message <;> simp [Message.isNoteOn, Message.isNote]
  rw [hnotes, filter_isNote_ofTrack, countP_message_congr (map_message_deltasFrom ..),
    countP_placeNotes]
  simp [Message.isNoteOn]

/-- A score is exported if its tempo can be, with the tempo first and then its tracks in order. -/
theorem ofScore_eq_ok_iff {s : Score} {f : File} :
    ofScore ticksPerBeat s = .ok f ↔
      ∃ n, microsecondsPerBeat s.tempo = .ok n ∧
        f = ⟨ticksPerBeat, tempoTrack n :: s.tracks.map (ofTrack s.tempo ticksPerBeat)⟩ := by
  rw [ofScore]
  cases microsecondsPerBeat s.tempo with
  | error fault => simp
  | ok n => simp [eq_comm]

/-- A file has a message that starts a note for each note of its score, and no other. -/
theorem countP_isNoteOn_of_ofScore {s : Score} {f : File} (h : ofScore ticksPerBeat s = .ok f) :
    f.tracks.flatten.countP (fun m => m.message.isNoteOn) = s.totalEvents := by
  obtain ⟨n, -, rfl⟩ := ofScore_eq_ok_iff.mp h
  have hhead : (tempoTrack n).countP (fun m => m.message.isNoteOn) = 0 := rfl
  have htracks : ∀ ts : List Track, (ts.map (ofTrack s.tempo ticksPerBeat)).flatten.countP
      (fun m => m.message.isNoteOn) = (ts.flatMap (·.notes)).length := by
    intro ts
    induction ts with
    | nil => rfl
    | cons t ts ih =>
      rw [List.map_cons, List.flatten_cons, List.countP_append, ih, countP_isNoteOn_ofTrack,
        List.flatMap_cons, List.length_append]
  rw [List.flatten_cons, List.countP_append, hhead, htracks, zero_add, Score.totalEvents,
    Score.notes]

/-- The longest track of a file is as long as its score. The track that sets the tempo takes no
time. -/
theorem greatest_tickLength_of_ofScore {s : Score} {f : File} (hs : s.Valid) (htempo : 0 < s.tempo)
    (hticks : 0 < ticksPerBeat) (h : ofScore ticksPerBeat s = .ok f) :
    greatest (f.tracks.map tickLength) = ticks s.duration s.tempo ticksPerBeat := by
  obtain ⟨n, -, rfl⟩ := ofScore_eq_ok_iff.mp h
  have hhead : tickLength (tempoTrack n) = 0 := rfl
  have hnonneg : ∀ d ∈ (s.tracks.map (ofTrack s.tempo ticksPerBeat)).map tickLength, 0 ≤ d := by
    rw [List.map_map]
    intro d hd
    obtain ⟨t, ht, rfl⟩ := List.mem_map.mp hd
    exact tickLength_ofTrack_nonneg (hs t ht).notes htempo hticks
  rw [List.map_cons, hhead, greatest_zero_cons hnonneg, List.map_map]
  exact greatest_tickLength hs htempo hticks

/-- At a positive tempo a score has a file exactly if a beat fits into the message that sets the
tempo. -/
theorem exists_ofScore_iff {s : Score} (htempo : 0 < s.tempo) (ticksPerBeat : Int) :
    (∃ f, ofScore ticksPerBeat s = .ok f) ↔ 4 ≤ s.tempo := by
  have hbeat : Int.tdiv 60000000 s.tempo ≤ 0xffffff ↔ 4 ≤ s.tempo := by
    rw [Int.tdiv_eq_ediv_of_nonneg (by decide), ← Int.lt_add_one_iff, Int.ediv_lt_iff_lt_mul htempo]
    omega
  constructor
  · rintro ⟨f, hf⟩
    obtain ⟨n, hn, -⟩ := ofScore_eq_ok_iff.mp hf
    rw [microsecondsPerBeat, if_neg htempo.ne'] at hn
    dsimp only at hn
    split_ifs at hn with hrange
    exact hbeat.mp (by omega)
  · exact fun hmin => ⟨_, ofScore_eq htempo (hbeat.mpr hmin) ticksPerBeat⟩

/-- A file is as long as its score. Each track of a score in range is as long as the latest of the
ticks on which its notes end, and the longest one as the tick on which the score does; so is the
file, as soon as there is one. Of an assembled score the totals are known: it has the tokens of its
parts for notes, in every loop, each of which its file starts once, and it lasts as long as the part
that is heard last. Of the rests behind the last slot that sounds, those of the last loop do not
count, and a part without tokens counts for nothing. -/
theorem length_of_file :
    (∀ (s : Score) (ticksPerBeat : Int), s.Valid → 0 < s.tempo → 0 < ticksPerBeat →
      (∀ t ∈ s.tracks, tickLength (ofTrack s.tempo ticksPerBeat t)
        = greatest (t.notes.map fun n => ticks n.stop s.tempo ticksPerBeat)) ∧
      greatest (s.tracks.map fun t => tickLength (ofTrack s.tempo ticksPerBeat t))
        = ticks s.duration s.tempo ticksPerBeat ∧
      ((∃ f, ofScore ticksPerBeat s = .ok f) ↔ 4 ≤ s.tempo) ∧
      ∀ f, ofScore ticksPerBeat s = .ok f →
        f.tracks.drop 1 = s.tracks.map (ofTrack s.tempo ticksPerBeat) ∧
        greatest (f.tracks.map tickLength) = ticks s.duration s.tempo ticksPerBeat) ∧
    ∀ (e : Ensemble) (loops tempo : Int) (parts : List (String × Part)) (s : Score), 1 ≤ loops →
      assemble e loops tempo parts = .ok s →
      (∀ p ∈ parts, Part.totalLength p.2.slots = .ok (secondsOf p.2.slots) ∧
        ∀ s ∈ p.2.slots, s.length = .ok s.seconds) ∧
      s.totalEvents = loops.toNat * (parts.map fun p => p.2.tokenCount).sum ∧
      (∀ ticksPerBeat f, ofScore ticksPerBeat s = .ok f →
        f.tracks.flatten.countP (fun m => m.message.isNoteOn) = s.totalEvents) ∧
      s.duration
        = greatest ((parts.filter fun p => 0 < p.2.tokenCount).map fun p => p.2.lastHeard loops) :=
  by
  constructor
  case left =>
    intro s ticksPerBeat hs htempo hticks
    refine ⟨fun t ht => tickLength_ofTrack (hs t ht).notes htempo hticks,
      greatest_tickLength hs htempo hticks, exists_ofScore_iff htempo ticksPerBeat,
      fun f hf => ⟨?_, ?_⟩⟩
    · obtain ⟨n, -, rfl⟩ := ofScore_eq_ok_iff.mp hf
      rfl
    · exact greatest_tickLength_of_ofScore hs htempo hticks hf
  case right =>
    intro e loops tempo parts s hloops hassemble
    refine ⟨fun p hp => ?_, totalEvents_of_assemble hassemble,
      fun ticksPerBeat f hf => countP_isNoteOn_of_ofScore hf,
      duration_of_assemble hassemble hloops⟩
    obtain ⟨n, hn, hnth⟩ := List.mem_iff_getElem.mp hp
    obtain ⟨t, i, -, -, -, hnotes, -⟩ :=
      exists_track_of_assemble hassemble (List.getElem?_eq_some_iff.mpr ⟨hn, hnth⟩)
    obtain ⟨htotal, hslots⟩ := known_of_timeline hnotes hloops
    exact ⟨htotal, fun s hs => (hslots s hs).1⟩

/-- Three parts, played twice: the first ends in a rest, the last has nothing else. The rest counts
in the first loop only. -/
theorem length_of_file_with_rests :
    ∃ e s f, assemble e 2 120
        [("lead", ⟨"keys", [⟨"4", .single "c4"⟩, ⟨"4.", .chord []⟩]⟩),
          ("pad", ⟨"keys", [⟨"4.", .chord ["c4", "e4"]⟩]⟩),
          ("hush", ⟨"keys", [⟨"2", .chord []⟩]⟩)] = .ok s ∧
      ofScore 480 s = .ok f ∧
      s.totalEvents = 6 ∧ f.tracks.flatten.countP (fun m => m.message.isNoteOn) = 6 ∧
      s.duration = 7 / 2 ∧ greatest (f.tracks.map tickLength) = 3360 := by
  let piano : Instrument := ⟨"piano", ⟨"keys", some 1, none⟩⟩
  let parts : List (String × Part) :=
    [("lead", ⟨"keys", [⟨"4", .single "c4"⟩, ⟨"4.", .chord []⟩]⟩),
      ("pad", ⟨"keys", [⟨"4.", .chord ["c4", "e4"]⟩]⟩),
      ("hush", ⟨"keys", [⟨"2", .chord []⟩]⟩)]
  let pad : List NoteEvent :=
    [⟨60, 0, 3 / 2⟩, ⟨64, 0, 3 / 2⟩, ⟨60, 3 / 2, 3 / 2⟩, ⟨64, 3 / 2, 3 / 2⟩]
  let score : Score := ⟨120, [⟨"piano", 0, some 0, [⟨60, 0, 1⟩, ⟨60, 5 / 2, 1⟩]⟩,
    ⟨"piano", 1, some 0, pad⟩, ⟨"piano", 2, some 0, []⟩]⟩
  have hassemble : assemble ⟨[piano], [("keys", piano)]⟩ 2 120 parts = .ok score := by
    simp only [score, pad]
    cbv
  have hvalid : score.Valid := valid_of_tracksAfter (assemble_eq_ok_iff.mp hassemble).2
  obtain ⟨hfile, hassembled⟩ := length_of_file
  obtain ⟨-, -, hexists, hlength⟩ := hfile score 480 hvalid (by decide) (by decide)
  obtain ⟨f, hf⟩ := hexists.mpr (by decide)
  obtain ⟨-, hevents, hstarts, hduration⟩ := hassembled _ 2 120 parts score (by decide) hassemble
  have htokens : (parts.map fun p => p.2.tokenCount).sum = 3 := by cbv
  have hheard : greatest ((parts.filter fun p => 0 < p.2.tokenCount).map
      fun p => p.2.lastHeard 2) = 7 / 2 := by cbv
  have hticks : ticks (7 / 2) 120 480 = 3360 := by cbv
  rw [htokens] at hevents
  rw [hheard] at hduration
  refine ⟨_, score, f, hassemble, hf, hevents, (hstarts 480 f hf).trans hevents, hduration, ?_⟩
  rw [(hlength f hf).2, hduration]
  exact hticks

end Ostinato.Midi

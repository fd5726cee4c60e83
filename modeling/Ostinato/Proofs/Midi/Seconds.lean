import Mathlib
import Ostinato.Proofs.Midi.Playback
import Ostinato.Proofs.Score.Duration
import Ostinato.Proofs.Score.Range

/-!
# When notes are played

A player turns ticks back into seconds by the tempo that the file sets, a whole number of
microseconds for each beat. Two things come between a time of the score and the time at which it is
played: the tick is rounded, and the tempo is cut down to whole microseconds. The first moves a note
by half a tick at most, wherever it stands, since every tick is counted from the top of the track;
the second grows with the time. The main result is `plays_on_time`, which also says that a score of
table lengths is never rounded at the usual resolution.
-/

namespace Ostinato.Midi

/-- Whether a message sets the tempo. -/
def Message.isSetTempo : Message → Bool
  | setTempo _ => true
  | _ => false

/-- The messages of a file that set the tempo, at their ticks. -/
def File.tempi (f : File) : List Placed :=
  f.tracks.flatMap fun ms => (placesFrom 0 ms).filter fun q => q.message.isSetTempo

/-- When a tick is played, in seconds, if a beat lasts some microseconds. -/
def playedAt (microseconds ticksPerBeat tick : Int) : Rat :=
  tick * microseconds / (1000000 * ticksPerBeat)

/-- A time at which a note starts or stops, and what is sent then. -/
structure Boundary where
  time : Rat
  message : Message
  deriving DecidableEq, Repr

/-- The start and the stop of a note. -/
def boundariesOf (channel : Int) (n : NoteEvent) : List Boundary := [
  ⟨n.time, .noteOn channel n.pitch defaultVelocity⟩, ⟨n.stop, .noteOff channel n.pitch 0⟩]

/-- The starts and stops of all notes of a track. -/
def boundaries (t : Track) : List Boundary := t.notes.flatMap (boundariesOf t.channel)

/-- The starts and stops of notes among the messages of a track, at their ticks. -/
def notePlaces (ms : List Timed) : List Placed :=
  (placesFrom 0 ms).filter fun q => q.message.isNote

/-- The messages play the notes of a track, in some order: each start and stop is sent once, at a
tick that agrees with its time, and nothing else is. -/
def Plays (agree : Rat → Int → Prop) (t : Track) (ms : List Timed) : Prop :=
  ∃ bs : List Boundary, bs.Perm (boundaries t) ∧
    List.Forall₂ (fun b q => q.message = b.message ∧ agree b.time q.tick) bs (notePlaces ms)

/-- The tick is played near the time: half a tick away, and early by what the tempo has lost. -/
def Near (tempo ticksPerBeat microseconds : Int) (time : Rat) (tick : Int) : Prop :=
  |playedAt microseconds ticksPerBeat tick - time|
    ≤ microseconds / (2000000 * ticksPerBeat) + time * tempo / 60000000

/-- The tick is the exact place of the time, at 480 ticks per beat, and is played early by no more
than what the tempo has lost. -/
structure OnTick (tempo microseconds : Int) (time : Rat) (tick : Int) : Prop where
  exact : (tick : Rat) * 60 = time * tempo * 480
  early : 0 ≤ time - playedAt microseconds 480 tick
  le : time - playedAt microseconds 480 tick ≤ time * tempo / 60000000

variable {tempo ticksPerBeat microseconds : Int} {time : Rat}

/-! ## From times to ticks and back -/

/-- A tempo of whole microseconds is the exact one, less a part of a microsecond. -/
structure IsTempo (tempo microseconds : Int) : Prop where
  le : tempo * microseconds ≤ 60000000
  lt : 60000000 < tempo * (microseconds + 1)

/-- The exported tempo is the quotient of a minute and the beats in it, rounded down. -/
theorem isTempo_tdiv (htempo : 0 < tempo) : IsTempo tempo (Int.tdiv 60000000 tempo) := by
  rw [Int.tdiv_eq_ediv_of_nonneg (by decide)]
  refine ⟨?_, ?_⟩
  · rw [mul_comm]
    exact Int.ediv_mul_le 60000000 htempo.ne'
  · rw [mul_comm]
    exact Int.lt_ediv_add_one_mul_self 60000000 htempo

/-- A tempo is the floor of the exact quotient. -/
theorem IsTempo.eq_floor (h : IsTempo tempo microseconds) (htempo : 0 < tempo) :
    microseconds = ⌊(60000000 / tempo : Rat)⌋ := by
  have htempo' : (0 : Rat) < tempo := by exact_mod_cast htempo
  symm
  rw [Int.floor_eq_iff, le_div_iff₀ htempo', div_lt_iff₀ htempo', mul_comm,
    mul_comm _ (tempo : Rat)]
  exact_mod_cast And.intro h.le h.lt

/-- A time that is not rounded is played a little early: whole microseconds make the tempo a little
fast. -/
theorem early_of_exact (h : IsTempo tempo microseconds) (hticks : 0 < ticksPerBeat)
    (htime : 0 ≤ time) :
    0 ≤ time - exactTicks time tempo ticksPerBeat * microseconds / (1000000 * ticksPerBeat) ∧
      time - exactTicks time tempo ticksPerBeat * microseconds / (1000000 * ticksPerBeat)
        ≤ time * tempo / 60000000 := by
  have hticks' : (ticksPerBeat : Rat) ≠ 0 := by exact_mod_cast hticks.ne'
  have hle : (tempo * microseconds : Rat) ≤ 60000000 := by exact_mod_cast h.le
  have hlt : (60000000 : Rat) < tempo * microseconds + tempo := by
    have hcast := h.lt
    rw [mul_add, mul_one] at hcast
    exact_mod_cast hcast
  have hearly : time - exactTicks time tempo ticksPerBeat * microseconds / (1000000 * ticksPerBeat)
      = time * (60000000 - tempo * microseconds) / 60000000 := by
    rw [exactTicks]
    field_simp
    ring
  rw [hearly]
  refine ⟨by apply div_nonneg (mul_nonneg htime _) <;> linarith, ?_⟩
  gcongr
  linarith

/-- Rounding moves a time by half a tick at most, and the tempo makes it a little early. -/
theorem near_ticks (h : IsTempo tempo microseconds) (hmicroseconds : 0 ≤ microseconds)
    (hticks : 0 < ticksPerBeat) (htime : 0 ≤ time) :
    Near tempo ticksPerBeat microseconds time (ticks time tempo ticksPerBeat) := by
  obtain ⟨hnonneg, hearly⟩ := early_of_exact h hticks htime
  have hticks' : (0 : Rat) < ticksPerBeat := by exact_mod_cast hticks
  have hunit : (0 : Rat) ≤ microseconds / (1000000 * ticksPerBeat) := by positivity
  -- the place of the time in ticks, before it is rounded
  set place := exactTicks time tempo ticksPerBeat with hplace
  have hround : |(ticks time tempo ticksPerBeat : Rat) - place| ≤ 1 / 2 :=
    abs_roundHalfEven_sub_le _
  have hsplit : playedAt microseconds ticksPerBeat (ticks time tempo ticksPerBeat) - time
      = (ticks time tempo ticksPerBeat - place) * (microseconds / (1000000 * ticksPerBeat))
        - (time - place * microseconds / (1000000 * ticksPerBeat)) := by
    rw [playedAt]
    ring
  calc |playedAt microseconds ticksPerBeat (ticks time tempo ticksPerBeat) - time|
      ≤ |(ticks time tempo ticksPerBeat - place) * (microseconds / (1000000 * ticksPerBeat))|
          + |time - place * microseconds / (1000000 * ticksPerBeat)| := by
        rw [hsplit]
        exact abs_sub _ _
    _ = |(ticks time tempo ticksPerBeat : Rat) - place|
            * (microseconds / (1000000 * ticksPerBeat))
          + (time - place * microseconds / (1000000 * ticksPerBeat)) := by
        rw [abs_mul, abs_of_nonneg hunit, abs_of_nonneg hnonneg]
    _ ≤ 1 / 2 * (microseconds / (1000000 * ticksPerBeat)) + time * tempo / 60000000 := by
        gcongr
    _ = microseconds / (2000000 * ticksPerBeat) + time * tempo / 60000000 := by ring

/-- At 480 ticks per beat a time on the grid is on a tick, so all that is left is the tempo. -/
theorem onTick_ticks (h : IsTempo tempo microseconds) (hgrid : OnGrid time) (htime : 0 ≤ time) :
    OnTick tempo microseconds time (ticks time tempo 480) := by
  have hexact := ticks_of_onGrid hgrid tempo
  have hplayed : playedAt microseconds 480 (ticks time tempo 480)
      = exactTicks time tempo 480 * microseconds / (1000000 * (480 : Int)) := by
    rw [playedAt, hexact]
  obtain ⟨hearly, hle⟩ := early_of_exact h (show (0 : Int) < 480 by decide) htime
  refine ⟨?_, hplayed ▸ hearly, hplayed ▸ hle⟩
  rw [hexact, exactTicks]
  push_cast
  ring

/-! ## The messages of a file -/

/-- What is in another order than the images of some things is the image of these in an order. -/
theorem exists_perm_of_perm_map {α β : Type} {f : α → β} {xs : List α} {ys : List β}
    (h : ys.Perm (xs.map f)) : ∃ xs' : List α, xs'.Perm xs ∧ ys = xs'.map f := by
  have hcomp := congrFun (congrFun (List.eq_map_comp_perm f) ys) xs
  obtain ⟨xs', heq, hperm⟩ := hcomp.mpr h
  exact ⟨xs', hperm, heq⟩

/-- The note messages of an exported track stand where its notes are placed. -/
theorem notePlaces_ofTrack (tempo ticksPerBeat : Int) (t : Track) :
    notePlaces (ofTrack tempo ticksPerBeat t)
      = placeNotes t.channel tempo ticksPerBeat t.notes := by
  obtain ⟨tick, hplaces⟩ := placesFrom_ofTrack tempo ticksPerBeat t
  have hhead : (headPlaces t).filter (fun q => q.message.isNote) = [] := by
    refine List.filter_eq_nil_iff.mpr fun q hq => ?_
    obtain ⟨-, rfl⟩ | ⟨p, -, rfl⟩ := mem_headPlaces.mp hq <;> simp [Message.isNote]
  have hnotes : (placeNotes t.channel tempo ticksPerBeat t.notes).filter
      (fun q => q.message.isNote) = placeNotes t.channel tempo ticksPerBeat t.notes :=
    List.filter_eq_self.mpr fun q hq => isNote_of_mem_placeNotes hq
  rw [notePlaces, hplaces, List.filter_append, List.filter_append, hhead, hnotes]
  simp [Message.isNote]

/-- An exported track plays its notes, each boundary at its own rounded tick. -/
theorem plays_ofTrack {agree : Rat → Int → Prop} {t : Track}
    (h : ∀ b ∈ boundaries t, agree b.time (ticks b.time tempo ticksPerBeat)) :
    Plays agree t (ofTrack tempo ticksPerBeat t) := by
  have hplace : t.notes.flatMap (placeNote t.channel tempo ticksPerBeat)
      = (boundaries t).map fun b => ⟨ticks b.time tempo ticksPerBeat, b.message⟩ := by
    rw [boundaries, List.map_flatMap]
    rfl
  have hperm := placeNotes_perm t.channel tempo ticksPerBeat t.notes
  rw [hplace] at hperm
  obtain ⟨bs, hbs, hsorted⟩ := exists_perm_of_perm_map hperm
  refine ⟨bs, hbs, ?_⟩
  rw [notePlaces_ofTrack, hsorted, List.forall₂_map_right_iff, List.forall₂_same]
  exact fun b hb => ⟨rfl, h b (hbs.mem_iff.mp hb)⟩

/-- A boundary is the start or the stop of a note. -/
theorem mem_boundaries {t : Track} {b : Boundary} (h : b ∈ boundaries t) :
    ∃ n ∈ t.notes, b.time = n.time ∨ b.time = n.stop := by
  obtain ⟨n, hn, hb⟩ := List.mem_flatMap.mp h
  rw [boundariesOf, List.mem_pair] at hb
  exact ⟨n, hn, hb.imp (congrArg Boundary.time) (congrArg Boundary.time)⟩

/-- The boundaries of valid notes are not negative. -/
theorem time_nonneg_of_mem_boundaries {t : Track} (ht : ∀ n ∈ t.notes, n.Valid) {b : Boundary}
    (h : b ∈ boundaries t) : 0 ≤ b.time := by
  obtain ⟨n, hn, hb | hb⟩ := mem_boundaries h
  · exact hb ▸ (ht n hn).time_nonneg
  · exact hb ▸ (ht n hn).stop_nonneg

/-- The boundaries of an assembled track are on the grid, whatever comes before them. -/
theorem onGrid_of_mem_boundaries {e : Ensemble} {loops tempo : Int}
    {parts : List (String × Part)} {s : Score} (hs : assemble e loops tempo parts = .ok s)
    {t : Track} (ht : t ∈ s.tracks) {b : Boundary} (h : b ∈ boundaries t) : OnGrid b.time := by
  obtain ⟨i, slots, hnotes⟩ := exists_timeline_of_mem_tracks hs ht
  obtain ⟨bs, hbs, hlayout⟩ := exists_beats_of_timeline hnotes
  obtain ⟨n, hn, hb⟩ := mem_boundaries h
  obtain ⟨htime, hstop⟩ := onGrid_of_mem_notesFrom onGrid_zero hbs (hlayout ▸ hn)
  rcases hb with hb | hb
  · exact hb ▸ htime
  · exact hb ▸ hstop

/-- Only the first track of a file says something about the tempo. -/
theorem tempi_of_tracks (ticksPerBeat microseconds tempo : Int) (ts : List Track) :
    File.tempi ⟨ticksPerBeat, tempoTrack microseconds :: ts.map (ofTrack tempo ticksPerBeat)⟩
      = [⟨0, .setTempo microseconds⟩] := by
  have hnone : ∀ t, (placesFrom 0 (ofTrack tempo ticksPerBeat t)).filter
      (fun q => q.message.isSetTempo) = [] := by
    intro t
    rw [filter_placesFrom_ofTrack (fun m hm => by cases m <;> first | rfl | cases hm) rfl]
    refine List.filter_eq_nil_iff.mpr fun q hq => ?_
    obtain ⟨-, rfl⟩ | ⟨p, -, rfl⟩ := mem_headPlaces.mp hq <;> simp [Message.isSetTempo]
  have hrest : (ts.map (ofTrack tempo ticksPerBeat)).flatMap
      (fun ms => (placesFrom 0 ms).filter fun q => q.message.isSetTempo) = [] := by
    rw [List.flatMap_map, List.flatMap_eq_nil_iff]
    exact fun t _ => hnone t
  rw [File.tempi, List.flatMap_cons, hrest]
  rfl

/-- Every note of a score is played when the score says, up to half a tick and up to what the tempo
loses, and the half tick is the same for the last note as for the first. Of a score that is put
together from table lengths nothing is rounded at 480 ticks per beat, whatever comes before a note
and however often it is repeated. -/
theorem plays_on_time {s : Score} {ticksPerBeat : Int} (hnotes : ∀ n ∈ s.notes, n.Valid)
    (hmin : 20 ≤ s.tempo) (hticks : 0 < ticksPerBeat) :
    ∃ f microseconds, ofScore ticksPerBeat s = .ok f ∧
      microseconds = ⌊(60000000 / s.tempo : Rat)⌋ ∧
      f.ticksPerBeat = ticksPerBeat ∧
      f.tempi = [⟨0, .setTempo microseconds⟩] ∧
      f.tracks.length = s.tracks.length + 1 ∧
      ∀ k t, s.tracks[k]? = some t → ∃ ms, f.tracks[k + 1]? = some ms ∧
        Plays (Near s.tempo ticksPerBeat microseconds) t ms ∧
        (ticksPerBeat = 480 → (∃ e loops tempo parts, assemble e loops tempo parts = .ok s) →
          Plays (OnTick s.tempo microseconds) t ms) := by
  have htempo : 0 < s.tempo := by omega
  have hfloor := isTempo_tdiv htempo
  have hnonneg : 0 ≤ Int.tdiv 60000000 s.tempo := Int.tdiv_nonneg (by decide) htempo.le
  refine ⟨_, Int.tdiv 60000000 s.tempo, ofScore_eq htempo (microseconds_le hmin) ticksPerBeat,
    hfloor.eq_floor htempo, rfl, tempi_of_tracks .., by simp, fun k t ht => ?_⟩
  have hmem : t ∈ s.tracks := List.mem_of_getElem? ht
  have hvalid : ∀ n ∈ t.notes, n.Valid := fun n hn => hnotes n (List.mem_flatMap.mpr ⟨t, hmem, hn⟩)
  refine ⟨ofTrack s.tempo ticksPerBeat t, by simp [ht], ?near, ?exact⟩
  case near =>
    exact plays_ofTrack fun b hb =>
      near_ticks hfloor hnonneg hticks (time_nonneg_of_mem_boundaries hvalid hb)
  case exact =>
    rintro rfl ⟨e, loops, tempo, parts, hassemble⟩
    exact plays_ofTrack fun b hb =>
      onTick_ticks hfloor (onGrid_of_mem_boundaries hassemble hmem hb)
        (time_nonneg_of_mem_boundaries hvalid hb)

/-- A drum struck in each of two loops at a tempo that is cut down: a beat of 200668 whole
microseconds. -/
theorem plays_on_time_drum :
    ∃ e s t f ms, assemble e 2 299 [("beat", ⟨"drums", [⟨"4.", .chord ["k"]⟩, ⟨"8", .chord []⟩]⟩)]
        = .ok s ∧
      s.tracks = [t] ∧ t.notes = [⟨36, 0, 3 / 2⟩, ⟨36, 2, 3 / 2⟩] ∧
      ofScore 480 s = .ok f ∧ f.tempi = [⟨0, .setTempo 200668⟩] ∧ f.tracks[1]? = some ms ∧
      Plays (Near 299 480 200668) t ms ∧ Plays (OnTick 299 200668) t ms := by
  let kit : Instrument := ⟨"kit", ⟨"drums", none, some [("k", 36)]⟩⟩
  let track : Track := ⟨"kit", 9, none, [⟨36, 0, 3 / 2⟩, ⟨36, 2, 3 / 2⟩]⟩
  let score : Score := ⟨299, [track]⟩
  have hassemble : assemble ⟨[kit], [("drums", kit)]⟩ 2 299
      [("beat", ⟨"drums", [⟨"4.", .chord ["k"]⟩, ⟨"8", .chord []⟩]⟩)]
      = .ok ⟨299, [⟨"kit", 9, none, [⟨36, 0, 3 / 2⟩, ⟨36, 2, 3 / 2⟩]⟩]⟩ := by
    cbv
  have hvalid : ∀ n ∈ score.notes, n.Valid := by
    intro n hn
    obtain rfl | rfl := List.mem_pair.mp hn <;> constructor <;> norm_num [maxData]
  obtain ⟨f, microseconds, hfile, hfloor, -, htempi, -, htracks⟩ :=
    plays_on_time hvalid (by decide) (show (0 : Int) < 480 by decide)
  obtain ⟨ms, hms, hnear, hexact⟩ := htracks 0 track rfl
  have hmicroseconds : microseconds = 200668 := by
    rw [hfloor, Int.floor_eq_iff]
    norm_num [score]
  subst hmicroseconds
  exact ⟨_, score, track, f, ms, hassemble, rfl, rfl, hfile, htempi, hms, hnear,
    hexact rfl ⟨_, _, _, _, hassemble⟩⟩

end Ostinato.Midi

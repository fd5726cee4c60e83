import Mathlib
import Ostinato.Proofs.Midi.Placement

/-!
# Starts and stops in balance

A player that counts the sounding notes of a pitch up at each start and down at each stop must never
count below zero, and must end at zero. `notes_balanced` says that exported tracks are balanced in
this sense as long as every note lasts more than one tick, that this covers everything compiled at
an ordinary tempo and resolution, and that exactly one tick is not enough.
-/

namespace Ostinato.Midi

/-- In no first part of a track do more notes of a pitch stop than have started, and in the whole
track as many stop as start. -/
def Balanced (ms : List Timed) : Prop :=
  ∀ pitch,
    (∀ first, first <+: ms →
      first.countP (fun m => m.message.stops pitch)
        ≤ first.countP fun m => m.message.starts pitch) ∧
    ms.countP (fun m => m.message.stops pitch) = ms.countP fun m => m.message.starts pitch

variable {channel tempo ticksPerBeat pitch : Int}

/-- Only the notes of a track count. -/
theorem countP_filter_isNote (ms : List Timed) (pitch : Int) :
    ms.countP (fun m => m.message.stops pitch)
        = (ms.filter fun m => m.message.isNote).countP (fun m => m.message.stops pitch) ∧
      ms.countP (fun m => m.message.starts pitch)
        = (ms.filter fun m => m.message.isNote).countP (fun m => m.message.starts pitch) := by
  rw [List.countP_filter, List.countP_filter]
  constructor <;> refine List.countP_congr fun m _ => ?_
  all_goals cases m.message <;> simp [Message.stops, Message.starts, Message.isNote]

/-- What is counted of messages does not depend on where they stand. -/
theorem countP_message_congr {ms : List Timed} {ps : List Placed}
    (h : ms.map Timed.message = ps.map Placed.message) (f : Message → Bool) :
    ms.countP (fun m => f m.message) = ps.countP fun q => f q.message := by
  have hcongr := congrArg (List.countP f) h
  rwa [List.countP_map, List.countP_map] at hcongr

/-- A cut through messages in order parts those before a tick from those at or after it. So if, up
to every tick, no more notes stop than started earlier, then the first part is in balance. -/
theorem countP_stops_le_of_prefix {first ps : List Placed}
    (hsorted : ps.Pairwise fun a b => a.before b = true) (hfirst : first <+: ps)
    (hcount : ∀ tick, ps.countP (fun q => q.message.stops pitch && q.tick ≤ tick)
      ≤ ps.countP fun q => q.message.starts pitch && q.tick < tick) :
    first.countP (fun q => q.message.stops pitch)
      ≤ first.countP fun q => q.message.starts pitch := by
  obtain ⟨rest, rfl⟩ := hfirst
  rcases List.eq_nil_or_concat first with rfl | ⟨init, last, rfl⟩
  · simp
  · rw [List.concat_eq_append] at *
    obtain ⟨hwithin, -, hacross⟩ := List.pairwise_append.mp hsorted
    have hupto : ∀ q ∈ init ++ [last], q.tick ≤ last.tick := by
      intro q hq
      rcases List.mem_append.mp hq with hq | hq
      · exact Placed.tick_le_of_before
          ((List.pairwise_append.mp hwithin).2.2 q hq last List.mem_cons_self)
      · exact (congrArg Placed.tick (List.mem_singleton.mp hq)).le
    have hfrom : rest.countP (fun q => q.message.starts pitch && q.tick < last.tick) = 0 := by
      refine List.countP_eq_zero.mpr fun q hq => ?_
      have hle := Placed.tick_le_of_before (hacross last (by simp) q hq)
      simp [hle]
    calc (init ++ [last]).countP (fun q => q.message.stops pitch)
        = (init ++ [last]).countP (fun q => q.message.stops pitch && q.tick ≤ last.tick) :=
          List.countP_congr fun q hq => by simp [hupto q hq]
      _ ≤ (init ++ [last] ++ rest).countP (fun q => q.message.stops pitch && q.tick ≤ last.tick) :=
          (List.sublist_append_left _ rest).countP_le
      _ ≤ (init ++ [last] ++ rest).countP (fun q => q.message.starts pitch && q.tick < last.tick) :=
          hcount last.tick
      _ = (init ++ [last]).countP (fun q => q.message.starts pitch && q.tick < last.tick) := by
          rw [List.countP_append, hfrom, Nat.add_zero]
      _ ≤ (init ++ [last]).countP (fun q => q.message.starts pitch) :=
          List.countP_mono_left fun q _ h => (Bool.and_eq_true_iff.mp h).1

/-- A note of more than one tick starts on an earlier tick than it stops. -/
theorem countP_stops_le_countP_starts {notes : List NoteEvent}
    (h : ∀ n ∈ notes, 1 < exactTicks n.duration tempo ticksPerBeat) (tick : Int) :
    (placeNotes channel tempo ticksPerBeat notes).countP
        (fun q => q.message.stops pitch && q.tick ≤ tick)
      ≤ (placeNotes channel tempo ticksPerBeat notes).countP
        fun q => q.message.starts pitch && q.tick < tick := by
  rw [countP_placeNotes, countP_placeNotes]
  simp only [Message.stops, Message.starts, Bool.false_and, List.countP_false, Function.const_apply,
    Nat.zero_add, Nat.add_zero]
  refine List.countP_mono_left fun n hn hstops => ?_
  have hlt := ticks_lt_ticks_add n.time (h n hn)
  simp only [Bool.and_eq_true, decide_eq_true_eq] at hstops ⊢
  exact ⟨hstops.1, hlt.trans_le hstops.2⟩

/-- Tracks whose notes all last more than one tick are in balance. -/
theorem balanced_ofTrack {t : Track}
    (h : ∀ n ∈ t.notes, 1 < exactTicks n.duration tempo ticksPerBeat) :
    Balanced (ofTrack tempo ticksPerBeat t) := by
  intro pitch
  constructor
  · intro first hfirst
    rw [(countP_filter_isNote first pitch).1, (countP_filter_isNote first pitch).2]
    have hnotes := (hfirst.filter fun m => m.message.isNote).map Timed.message
    rw [filter_isNote_ofTrack, map_message_deltasFrom] at hnotes
    -- a first part of the messages is a first part of the placed messages
    obtain ⟨placed, hplaced, hmap⟩ := List.prefix_map_iff.mp hnotes
    rw [countP_message_congr hmap, countP_message_congr hmap]
    exact countP_stops_le_of_prefix (placeNotes_sorted t.channel tempo ticksPerBeat t.notes) hplaced
      (countP_stops_le_countP_starts h)
  · rw [(countP_filter_isNote _ pitch).1, (countP_filter_isNote _ pitch).2, filter_isNote_ofTrack,
      countP_message_congr (map_message_deltasFrom _ _),
      countP_message_congr (map_message_deltasFrom _ _), countP_placeNotes, countP_placeNotes]
    simp [Message.stops, Message.starts]

/-- Everything that is compiled from the table is in balance at an ordinary tempo and resolution. -/
theorem balanced_of_timeline {i : Instrument} {slots : List Slot} {loops : Int} {t : Track}
    (h : timeline i slots loops = .ok t.notes) (htempo : 20 ≤ tempo) (hticks : 13 ≤ ticksPerBeat) :
    Balanced (ofTrack tempo ticksPerBeat t) := by
  obtain ⟨bs, hvalid, hnotes⟩ := exists_beats_of_timeline h
  refine balanced_ofTrack fun n hn => ?_
  rw [hnotes] at hn
  obtain ⟨b, hb, hlength, -⟩ := exists_beat_of_mem_notesFrom hn
  rw [hlength]
  exact one_lt_exactTicks_of_isLength (hvalid b hb).isLength (by nlinarith)

/-- A track with one note of one tick, from half way between two ticks to half way between the next
two. Both round to the even tick between them. -/
def collapsing : Track := ⟨"", 0, none, [⟨60, 3 / 2, 1⟩]⟩

/-- The notes of the collapsing track are valid. -/
theorem valid_collapsing : collapsing.Valid := by
  refine ⟨by decide, by decide, by simp [collapsing], by simp [collapsing], fun n hn => ?_⟩
  rw [List.mem_singleton.mp hn]
  exact ⟨by decide, by decide, by norm_num, by norm_num⟩

/-- On a coarse grid the note of the collapsing track stops where it starts, and the stop comes
first. -/
theorem ofTrack_collapsing : ofTrack 60 1 collapsing
    = [⟨2, .noteOff 0 60 0⟩, ⟨0, .noteOn 0 60 127⟩, ⟨0, .endOfTrack⟩] := by
  cbv

/-- So its messages are not balanced. -/
theorem not_balanced_collapsing : ¬ Balanced (ofTrack 60 1 collapsing) := by
  intro hbalanced
  rw [ofTrack_collapsing] at hbalanced
  have hfirst := (hbalanced 60).1 [⟨2, .noteOff 0 60 0⟩] ⟨_, rfl⟩
  exact absurd hfirst (by decide)

/-- No note hangs and none stops before it starts. This needs more than one exact tick for each
note, which everything compiled from the table has at a tempo of 20 or more and 13 or more ticks per
beat. With exactly one tick a note can stop before it starts, since stops come first on a tick. -/
theorem notes_balanced :
    (∀ (tempo ticksPerBeat : Int) (t : Track),
      (∀ n ∈ t.notes, 1 < n.duration * tempo * ticksPerBeat / 60) →
        Balanced (ofTrack tempo ticksPerBeat t)) ∧
    (∀ (tempo ticksPerBeat : Int) (i : Instrument) (slots : List Slot) (loops : Int) (t : Track),
      timeline i slots loops = .ok t.notes → 20 ≤ tempo → 13 ≤ ticksPerBeat →
        Balanced (ofTrack tempo ticksPerBeat t)) ∧
    ∃ (tempo ticksPerBeat : Int) (t : Track), 0 < tempo ∧ 0 < ticksPerBeat ∧ t.Valid ∧
      (∀ n ∈ t.notes, n.duration * tempo * ticksPerBeat / 60 = 1) ∧
      ¬ Balanced (ofTrack tempo ticksPerBeat t) ∧
      ∃ c p v w d, ofTrack tempo ticksPerBeat t
        = [⟨d, .noteOff c p v⟩, ⟨0, .noteOn c p w⟩, ⟨0, .endOfTrack⟩] := by
  refine ⟨fun tempo ticksPerBeat t h => ?_, fun tempo ticksPerBeat i slots loops t => ?_, ?_⟩
  · refine balanced_ofTrack fun n hn => ?_
    have hexact : exactTicks n.duration tempo ticksPerBeat
        = n.duration * tempo * ticksPerBeat / 60 := by
      rw [exactTicks]
      ring
    rw [hexact]
    exact h n hn
  · exact balanced_of_timeline
  · refine ⟨60, 1, collapsing, by decide, by decide, valid_collapsing, fun n hn => ?_,
      not_balanced_collapsing, 0, 60, 0, 127, 2, ofTrack_collapsing⟩
    rw [List.mem_singleton.mp hn]
    norm_num

end Ostinato.Midi

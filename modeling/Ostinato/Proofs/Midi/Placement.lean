import Mathlib.Order.Basic
import Ostinato.Midi.Export
import Ostinato.Proofs.Midi.Tick
import Ostinato.Proofs.Score.Duration
import Ostinato.Proofs.Score.Timeline

/-!
# The order of messages on a track

`placeNotes` puts the starts and stops of notes in order by a stable sort. For arbitrary notes this
module says what that leaves: the same messages, sorted. For notes laid out from beats of more than
one tick it says much more: `placeNotes_notesFrom` gives the sorted list itself, in which each beat
starts all its notes and then stops them, before the next beat begins.
-/

namespace Ostinato.Midi

variable {channel tempo ticksPerBeat : Int}

/-- Whether a message starts or stops a note. -/
def Message.isNote : Message → Bool
  | noteOn .. => true
  | noteOff .. => true
  | _ => false

/-- Whether a message starts a note of a pitch. -/
def Message.starts (pitch : Int) : Message → Bool
  | noteOn _ n _ => n = pitch
  | _ => false

/-- Whether a message stops a note of a pitch. -/
def Message.stops (pitch : Int) : Message → Bool
  | noteOff _ n _ => n = pitch
  | _ => false

/-! ## Sorting -/

/-- A message may stand before another if it is earlier, or at the same tick and not a start before
a stop. -/
theorem Placed.before_iff {a b : Placed} :
    a.before b = true ↔
      a.tick < b.tick ∨
        a.tick = b.tick ∧ (a.message.isNoteOff = true ∨ b.message.isNoteOff = false) := by
  simp [Placed.before]

/-- The order of messages is transitive. -/
theorem Placed.before_trans (a b c : Placed) (hab : a.before b = true) (hbc : b.before c = true) :
    a.before c = true := by
  rw [Placed.before_iff] at *
  rcases hab with hab | ⟨hab, hoff⟩ <;> rcases hbc with hbc | ⟨hbc, hoff'⟩
  · exact Or.inl (hab.trans hbc)
  · exact Or.inl (hbc ▸ hab)
  · exact Or.inl (hab ▸ hbc)
  · refine Or.inr ⟨hab.trans hbc, ?_⟩
    rcases hoff with hoff | hoff
    · exact Or.inl hoff
    · exact Or.inr (hoff'.resolve_left (by rw [hoff]; exact Bool.false_ne_true))

/-- Of two messages one may stand before the other. -/
theorem Placed.before_total (a b : Placed) : (a.before b || b.before a) = true := by
  rw [Bool.or_eq_true, Placed.before_iff, Placed.before_iff]
  rcases lt_trichotomy a.tick b.tick with h | h | h
  · exact Or.inl (Or.inl h)
  · cases hb : b.message.isNoteOff with
    | true => exact Or.inr (Or.inr ⟨h.symm, Or.inl rfl⟩)
    | false => exact Or.inl (Or.inr ⟨h, Or.inr rfl⟩)
  · exact Or.inr (Or.inl h)

/-- A message that stands before another is no later. -/
theorem Placed.tick_le_of_before {a b : Placed} (h : a.before b = true) : a.tick ≤ b.tick := by
  rcases Placed.before_iff.mp h with h | ⟨h, -⟩
  · exact h.le
  · exact h.le

/-- The messages of notes are their starts and stops, in another order. -/
theorem placeNotes_perm (channel tempo ticksPerBeat : Int) (notes : List NoteEvent) :
    (placeNotes channel tempo ticksPerBeat notes).Perm
      (notes.flatMap (placeNote channel tempo ticksPerBeat)) :=
  List.mergeSort_perm _ _

/-- The messages of notes are sorted. -/
theorem placeNotes_sorted (channel tempo ticksPerBeat : Int) (notes : List NoteEvent) :
    (placeNotes channel tempo ticksPerBeat notes).Pairwise fun a b => a.before b = true :=
  List.pairwise_mergeSort Placed.before_trans Placed.before_total _

/-- A message is the start or the stop of a note. -/
theorem mem_placeNotes {notes : List NoteEvent} {q : Placed} :
    q ∈ placeNotes channel tempo ticksPerBeat notes ↔
      ∃ n ∈ notes, q = ⟨ticks n.time tempo ticksPerBeat, .noteOn channel n.pitch defaultVelocity⟩ ∨
        q = ⟨ticks n.stop tempo ticksPerBeat, .noteOff channel n.pitch 0⟩ := by
  rw [(placeNotes_perm channel tempo ticksPerBeat notes).mem_iff]
  simp [placeNote]

/-- The messages of notes are note messages. -/
theorem isNote_of_mem_placeNotes {notes : List NoteEvent} {q : Placed}
    (h : q ∈ placeNotes channel tempo ticksPerBeat notes) : q.message.isNote = true := by
  obtain ⟨n, -, rfl | rfl⟩ := mem_placeNotes.mp h <;> rfl

/-- Of each note, one start and one stop are placed. -/
theorem countP_placeNotes (channel tempo ticksPerBeat : Int) (notes : List NoteEvent)
    (f : Placed → Bool) :
    (placeNotes channel tempo ticksPerBeat notes).countP f
      = notes.countP (fun n =>
          f ⟨ticks n.time tempo ticksPerBeat, .noteOn channel n.pitch defaultVelocity⟩)
        + notes.countP (fun n =>
          f ⟨ticks n.stop tempo ticksPerBeat, .noteOff channel n.pitch 0⟩) := by
  rw [(placeNotes_perm channel tempo ticksPerBeat notes).countP_eq f]
  induction notes with
  | nil => rfl
  | cons n notes ih =>
    simp only [List.flatMap_cons, placeNote, List.cons_append, List.nil_append, List.countP_cons,
      ih]
    omega

/-- A new first message goes in front of the messages that it may stand before. This is the whole of
stability: it does not pass a message of its own rank. -/
theorem mergeSort_before_cons {p : Placed} {ps l r : List Placed}
    (h : ps.mergeSort Placed.before = l ++ r)
    (hl : ∀ q ∈ l, p.before q = false) (hr : ∀ q ∈ r, p.before q = true) :
    (p :: ps).mergeSort Placed.before = l ++ p :: r := by
  obtain ⟨l₁, l₂, hcons, hps, hl₁⟩ :=
    List.mergeSort_cons Placed.before_trans Placed.before_total p ps
  have hl₂ : ∀ q ∈ l₂, p.before q = true := by
    intro q hq
    have hsorted := List.pairwise_mergeSort Placed.before_trans Placed.before_total (p :: ps)
    rw [hcons, List.pairwise_append] at hsorted
    exact (List.pairwise_cons.mp hsorted.2.1).1 q hq
  -- both ways of cutting the sorted list cut it where `p` may stand for the first time
  have hcut : ∀ {xs ys : List Placed}, (∀ q ∈ xs, p.before q = false) →
      (∀ q ∈ ys, p.before q = true) → (xs ++ ys).takeWhile (fun q => !p.before q) = xs := by
    intro xs ys hxs hys
    rw [List.takeWhile_append_of_pos (fun q hq => by simp [hxs q hq])]
    cases ys with
    | nil => simp
    | cons y ys => rw [List.takeWhile_cons_of_neg (by simp [hys y]), List.append_nil]
  have hsame : l₁ = l := by
    have hl₁' := hcut (fun q hq => by simpa using hl₁ q hq) hl₂
    rw [← hl₁', ← hps, h, hcut hl hr]
  subst hsame
  rw [h] at hps
  rw [hcons, List.append_cancel_left hps]

/-! ## Beats in order -/

/-- The messages that start notes at a tick. -/
def startsAt (channel tick : Int) (pitches : List Int) : List Placed :=
  pitches.map fun p => ⟨tick, .noteOn channel p defaultVelocity⟩

/-- The messages that stop notes at a tick. -/
def stopsAt (channel tick : Int) (pitches : List Int) : List Placed :=
  pitches.map fun p => ⟨tick, .noteOff channel p 0⟩

/-- The messages of beats that follow one another from a time on, in the order of playing. -/
def playFrom (channel tempo ticksPerBeat : Int) : Rat → List Beat → List Placed
  | _, [] => []
  | time, b :: bs =>
    startsAt channel (ticks time tempo ticksPerBeat) b.pitches ++
      (stopsAt channel (ticks (time + b.length) tempo ticksPerBeat) b.pitches ++
        playFrom channel tempo ticksPerBeat (time + b.length) bs)

/-- One beat in front of messages that come no earlier than its end. -/
theorem mergeSort_chord (channel : Int) {start stop : Int} (hlt : start < stop)
    {later sorted : List Placed} (hsorted : later.mergeSort Placed.before = sorted)
    (hlater : ∀ q ∈ sorted, stop ≤ q.tick) (pitches : List Int) :
    ((pitches.flatMap fun p => ([⟨start, .noteOn channel p defaultVelocity⟩,
        ⟨stop, .noteOff channel p 0⟩] : List Placed)) ++ later).mergeSort Placed.before
      = startsAt channel start pitches ++ (stopsAt channel stop pitches ++ sorted) := by
  induction pitches with
  | nil => simpa [startsAt, stopsAt] using hsorted
  | cons p ps ih =>
    have hstarts : ∀ q ∈ startsAt channel start ps,
        q.tick = start ∧ q.message.isNoteOff = false := by
      intro q hq
      obtain ⟨p', -, rfl⟩ := List.mem_map.mp hq
      exact ⟨rfl, rfl⟩
    have hbehind : ∀ q ∈ stopsAt channel stop ps ++ sorted, stop ≤ q.tick := by
      intro q hq
      rcases List.mem_append.mp hq with hq | hq
      · obtain ⟨p', -, rfl⟩ := List.mem_map.mp hq
        exact le_rfl
      · exact hlater q hq
    -- the stop passes the starts of its own beat, and nothing else
    have hstop := mergeSort_before_cons (p := ⟨stop, .noteOff channel p 0⟩) ih
      (fun q hq => by
        rw [Bool.eq_false_iff, ne_eq, Placed.before_iff, (hstarts q hq).1]
        dsimp only
        omega)
      (fun q hq => by
        rw [Placed.before_iff]
        rcases (hbehind q hq).lt_or_eq with h | h
        · exact Or.inl h
        · exact Or.inr ⟨h, Or.inl rfl⟩)
    -- the start passes nothing
    refine mergeSort_before_cons (p := ⟨start, .noteOn channel p defaultVelocity⟩)
      (l := []) hstop (fun q hq => absurd hq List.not_mem_nil) (fun q hq => ?_)
    rw [Placed.before_iff]
    rcases List.mem_append.mp hq with hq | hq
    · exact Or.inr ⟨(hstarts q hq).1.symm, Or.inr (hstarts q hq).2⟩
    · rcases List.mem_cons.mp hq with rfl | hq
      · exact Or.inl hlt
      · exact Or.inl (hlt.trans_le (hbehind q hq))

/-- Beats that are played from a time on have no message before it. -/
theorem tick_le_of_mem_playFrom {bs : List Beat}
    (h : ∀ b ∈ bs, 1 < exactTicks b.length tempo ticksPerBeat) {time : Rat} {q : Placed}
    (hq : q ∈ playFrom channel tempo ticksPerBeat time bs) :
    ticks time tempo ticksPerBeat ≤ q.tick := by
  induction bs generalizing time with
  | nil => cases hq
  | cons b bs ih =>
    have hlt := ticks_lt_ticks_add time (h b List.mem_cons_self)
    rw [playFrom, List.mem_append, List.mem_append] at hq
    rcases hq with hq | hq | hq
    · obtain ⟨p, -, rfl⟩ := List.mem_map.mp hq
      exact le_rfl
    · obtain ⟨p, -, rfl⟩ := List.mem_map.mp hq
      exact hlt.le
    · exact hlt.le.trans (ih (fun b' hb' => h b' (List.mem_cons_of_mem b hb')) hq)

/-- If every beat lasts more than one tick, the messages of the notes come beat by beat. -/
theorem placeNotes_notesFrom {bs : List Beat}
    (h : ∀ b ∈ bs, 1 < exactTicks b.length tempo ticksPerBeat) (time : Rat) :
    placeNotes channel tempo ticksPerBeat (notesFrom time bs)
      = playFrom channel tempo ticksPerBeat time bs := by
  induction bs generalizing time with
  | nil => simp [placeNotes, notesFrom, playFrom]
  | cons b bs ih =>
    have hrest : ∀ b' ∈ bs, 1 < exactTicks b'.length tempo ticksPerBeat :=
      fun b' hb' => h b' (List.mem_cons_of_mem b hb')
    have hchord := mergeSort_chord channel
      (ticks_lt_ticks_add time (h b List.mem_cons_self)) (ih hrest (time + b.length))
      (fun q hq => tick_le_of_mem_playFrom hrest hq) b.pitches
    rw [playFrom, ← hchord, placeNotes, notesFrom, List.flatMap_append, Beat.notesAt,
      List.flatMap_map]
    rfl

/-! ## Distances -/

/-- Distances change no message. -/
@[simp]
theorem map_message_deltasFrom (tick : Int) (ps : List Placed) :
    (deltasFrom tick ps).map Timed.message = ps.map Placed.message := by
  induction ps generalizing tick with
  | nil => rfl
  | cons p ps ih => simp [deltasFrom, ih]

/-- Messages in order have no negative distances. -/
theorem delta_nonneg_of_mem_deltasFrom {ps : List Placed}
    (hsorted : ps.Pairwise fun a b => a.before b = true) {tick : Int}
    (hfrom : ∀ p ∈ ps, tick ≤ p.tick) {m : Timed} (hm : m ∈ deltasFrom tick ps) : 0 ≤ m.delta := by
  induction ps generalizing tick with
  | nil => cases hm
  | cons p ps ih =>
    obtain ⟨hfirst, hrest⟩ := List.pairwise_cons.mp hsorted
    rw [deltasFrom] at hm
    rcases List.mem_cons.mp hm with rfl | hm
    · exact sub_nonneg.mpr (hfrom p List.mem_cons_self)
    · exact ih hrest (fun q hq => Placed.tick_le_of_before (hfirst q hq)) hm

/-! ## Whole tracks -/

/-- The notes of a track are what stands between its head and its end. -/
theorem filter_isNote_ofTrack (tempo ticksPerBeat : Int) (t : Track) :
    (ofTrack tempo ticksPerBeat t).filter (fun m => m.message.isNote)
      = deltasFrom 0 (placeNotes t.channel tempo ticksPerBeat t.notes) := by
  have hhead : (trackHead t).filter (fun m => m.message.isNote) = [] := by
    cases hprogram : t.program <;> by_cases hname : t.name = "" <;>
      simp [trackHead, hprogram, hname, Message.isNote]
  have hnotes : ∀ m ∈ deltasFrom 0 (placeNotes t.channel tempo ticksPerBeat t.notes),
      m.message.isNote = true := by
    intro m hm
    have hmessage := List.mem_map_of_mem (f := Timed.message) hm
    rw [map_message_deltasFrom] at hmessage
    obtain ⟨q, hq, heq⟩ := List.mem_map.mp hmessage
    exact heq ▸ isNote_of_mem_placeNotes hq
  rw [ofTrack, List.filter_append, List.filter_append, hhead, List.filter_eq_self.mpr hnotes]
  simp [Message.isNote]

/-- No note starts or stops before its track begins. -/
theorem tick_nonneg_of_mem_placeNotes {notes : List NoteEvent} (hnotes : ∀ n ∈ notes, n.Valid)
    (hspeed : 0 ≤ tempo * ticksPerBeat) {p : Placed}
    (hp : p ∈ placeNotes channel tempo ticksPerBeat notes) : 0 ≤ p.tick := by
  obtain ⟨n, hn, rfl | rfl⟩ := mem_placeNotes.mp hp
  · exact ticks_nonneg_of_mul hspeed (hnotes n hn).time_nonneg
  · exact ticks_nonneg_of_mul hspeed (hnotes n hn).stop_nonneg

/-- What stands in front of the notes is at the top of the track. -/
theorem delta_of_mem_trackHead {t : Track} {m : Timed} (h : m ∈ trackHead t) : m.delta = 0 := by
  rcases List.mem_append.mp h with hname | hprogram
  · split_ifs at hname
    · cases hname
    · rw [List.mem_singleton.mp hname]
  · obtain ⟨p, -, rfl⟩ := List.mem_map.mp hprogram
    rfl

/-- Exported messages never go back in time. -/
theorem delta_nonneg_of_mem_ofTrack {t : Track} (hnotes : ∀ n ∈ t.notes, n.Valid)
    (hspeed : 0 ≤ tempo * ticksPerBeat) {m : Timed}
    (hm : m ∈ ofTrack tempo ticksPerBeat t) : 0 ≤ m.delta := by
  rw [ofTrack, List.mem_append, List.mem_append, List.mem_singleton] at hm
  obtain (hhead | hnote) | rfl := hm
  · exact (delta_of_mem_trackHead hhead).ge
  · exact delta_nonneg_of_mem_deltasFrom (placeNotes_sorted t.channel tempo ticksPerBeat t.notes)
      (fun p hp => tick_nonneg_of_mem_placeNotes hnotes hspeed hp) hnote
  · exact le_rfl

end Ostinato.Midi

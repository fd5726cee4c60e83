import Mathlib
import Ostinato.Proofs.Midi.Playback
import Ostinato.Proofs.Score.Duration

/-!
# What stands on an exported track

A track is exported as its head, the starts and stops of its notes, and its end. Of the starts and
stops `Placement` knows that they are sorted; this module says which of them stand on one tick, and
in which order. The main result is `ofTrack_tick_by_tick`: each tick holds the stops that fall on
it and then the starts, both in the order of the notes, however the notes overlap.
-/

namespace Ostinato.Midi

/-! ## Stability -/

section Stable

variable {α : Type} {le : α → α → Bool}

/-- A stable sort leaves elements that are tied with each other in their order. -/
theorem filter_mergeSort_of_tied (htrans : ∀ a b c, le a b = true → le b c = true → le a c = true)
    (htotal : ∀ a b, (le a b || le b a) = true) {f : α → Bool}
    (htied : ∀ a b, f a = true → f b = true → le a b = true) (l : List α) :
    (l.mergeSort le).filter f = l.filter f := by
  -- the tied elements are a sorted part of the list, and a stable sort keeps such a part
  have hpairs : (l.filter f).Pairwise fun a b => le a b = true := by
    refine List.pairwise_of_forall_mem_list fun a ha b hb => ?_
    exact htied a b (List.of_mem_filter ha) (List.of_mem_filter hb)
  have hkept : (l.filter f).Sublist ((l.mergeSort le).filter f) := by
    have hsub := (List.sublist_mergeSort htrans htotal hpairs List.filter_sublist).filter f
    rwa [List.filter_filter, funext fun a => Bool.and_self (f a)] at hsub
  have hlength := ((List.mergeSort_perm l le).filter f).length_eq
  exact (hkept.eq_of_length hlength.symm).symm

/-- Where no element of a class stands behind one that is not of it, the class comes first. -/
theorem filter_append_filter_of_pairwise {f : α → Bool} {l : List α}
    (h : l.Pairwise fun a b => f a = true ∨ f b = false) :
    l.filter f ++ l.filter (fun a => !f a) = l := by
  induction l with
  | nil => rfl
  | cons a l ih =>
    obtain ⟨hfirst, hrest⟩ := List.pairwise_cons.mp h
    cases ha : f a with
    | true => simp [ha, ih hrest]
    | false =>
      have hnone : ∀ b ∈ l, f b = false := fun b hb => (hfirst b hb).resolve_left (by simp [ha])
      have hempty : l.filter f = [] := List.filter_eq_nil_iff.mpr fun b hb => by simp [hnone b hb]
      have hall : l.filter (fun a => !f a) = l :=
        List.filter_eq_self.mpr fun b hb => by simp [hnone b hb]
      simp [ha, hempty, hall]

end Stable

/-! ## Starts and stops -/

/-- The start of a note at its tick. -/
def startOf (channel tempo ticksPerBeat : Int) (n : NoteEvent) : Placed :=
  ⟨ticks n.time tempo ticksPerBeat, .noteOn channel n.pitch 127⟩

/-- The stop of a note at its tick. -/
def stopOf (channel tempo ticksPerBeat : Int) (n : NoteEvent) : Placed :=
  ⟨ticks n.stop tempo ticksPerBeat, .noteOff channel n.pitch 0⟩

variable {channel tempo ticksPerBeat : Int}

/-- The first note has its start and its stop in front of those of the others. -/
theorem flatMap_placeNote_cons (n : NoteEvent) (notes : List NoteEvent) :
    (n :: notes).flatMap (placeNote channel tempo ticksPerBeat)
      = startOf channel tempo ticksPerBeat n :: stopOf channel tempo ticksPerBeat n ::
          notes.flatMap (placeNote channel tempo ticksPerBeat) :=
  rfl

/-- The messages of notes are their starts and their stops, one of each for every note. -/
theorem placeNotes_perm_starts_stops (channel tempo ticksPerBeat : Int) (notes : List NoteEvent) :
    (placeNotes channel tempo ticksPerBeat notes).Perm
      (notes.map (startOf channel tempo ticksPerBeat) ++
        notes.map (stopOf channel tempo ticksPerBeat)) := by
  refine (placeNotes_perm channel tempo ticksPerBeat notes).trans ?_
  induction notes with
  | nil => exact .nil
  | cons n notes ih =>
    -- the stop of the first note moves behind the starts of the others
    rw [flatMap_placeNote_cons, List.map_cons, List.map_cons, List.cons_append]
    refine .cons _ ((List.Perm.cons _ ih).trans ?_)
    exact List.perm_middle.symm

/-- Sorting leaves the stops on a tick in the order of their notes, and the starts as well. -/
theorem filter_placeNotes_tick (off : Bool) (channel tempo ticksPerBeat tick : Int)
    (notes : List NoteEvent) :
    (placeNotes channel tempo ticksPerBeat notes).filter
        (fun p => decide (p.tick = tick) && p.message.isNoteOff == off)
      = (notes.map (if off then stopOf channel tempo ticksPerBeat
          else startOf channel tempo ticksPerBeat)).filter fun p => p.tick = tick := by
  have htied : ∀ a b : Placed, (decide (a.tick = tick) && a.message.isNoteOff == off) = true →
      (decide (b.tick = tick) && b.message.isNoteOff == off) = true → a.before b = true := by
    intro a b ha hb
    rw [Bool.and_eq_true, decide_eq_true_eq, beq_iff_eq] at ha hb
    refine Placed.before_iff.mpr (Or.inr ⟨ha.1.trans hb.1.symm, ?_⟩)
    rw [ha.2, hb.2]
    cases off <;> simp
  rw [placeNotes, filter_mergeSort_of_tied Placed.before_trans Placed.before_total htied]
  induction notes with
  | nil => rfl
  | cons n notes ih =>
    rw [flatMap_placeNote_cons, List.map_cons]
    by_cases hstart : ticks n.time tempo ticksPerBeat = tick <;>
      by_cases hstop : ticks n.stop tempo ticksPerBeat = tick <;>
      cases off <;> simpa [startOf, stopOf, Message.isNoteOff, hstart, hstop] using ih

/-- On a tick the stops come first and then the starts. -/
theorem placeNotes_on_tick (channel tempo ticksPerBeat tick : Int) (notes : List NoteEvent) :
    (placeNotes channel tempo ticksPerBeat notes).filter (fun p => p.tick = tick)
      = ((notes.map (stopOf channel tempo ticksPerBeat)).filter fun p => p.tick = tick) ++
          (notes.map (startOf channel tempo ticksPerBeat)).filter fun p => p.tick = tick := by
  have hsorted : ((placeNotes channel tempo ticksPerBeat notes).filter
      fun p => p.tick = tick).Pairwise
        fun a b => a.message.isNoteOff = true ∨ b.message.isNoteOff = false := by
    refine List.Pairwise.imp_of_mem (fun {a b} ha hb hab => ?_)
      ((placeNotes_sorted channel tempo ticksPerBeat notes).filter _)
    rw [List.mem_filter, decide_eq_true_eq] at ha hb
    obtain hlt | ⟨-, hoff⟩ := Placed.before_iff.mp hab
    · exact absurd (ha.2.trans hb.2.symm) hlt.ne
    · exact hoff
  have hstops := filter_placeNotes_tick true channel tempo ticksPerBeat tick notes
  have hstarts := filter_placeNotes_tick false channel tempo ticksPerBeat tick notes
  rw [if_pos rfl] at hstops
  rw [if_neg Bool.false_ne_true] at hstarts
  rw [← hstops, ← hstarts, ← filter_append_filter_of_pairwise hsorted, List.filter_filter,
    List.filter_filter]
  simp only [Bool.and_comm, beq_true, beq_false]

/-! ## Whole tracks -/

/-- An exported track, tick by tick, for notes in any order that may overlap and may fall together.
In front stand its name and its program, each once at most; then come the notes, and last the end.
Over the notes, at their ticks from the top of the track, there is one start and one stop for each
note and nothing else; the ticks never go back, and no distance is negative. On each tick stand
first the stops that fall on it and then the starts, both in the order in which the track has their
notes. -/
theorem ofTrack_tick_by_tick {t : Track} (hnotes : ∀ n ∈ t.notes, n.Valid) (htempo : 0 < tempo)
    (hticks : 0 < ticksPerBeat) :
    ∃ names programs notes : List Timed,
      ofTrack tempo ticksPerBeat t = names ++ programs ++ notes ++ [⟨0, .endOfTrack⟩] ∧
      names = (if t.name = "" then [] else [⟨0, .trackName (Text.latin t.name)⟩]) ∧
      programs = (t.program.toList.map fun p => ⟨0, .programChange t.channel p⟩) ∧
      names.length ≤ 1 ∧ programs.length ≤ 1 ∧
      (placesFrom 0 notes).Perm
        (t.notes.map (startOf t.channel tempo ticksPerBeat) ++
          t.notes.map (stopOf t.channel tempo ticksPerBeat)) ∧
      (placesFrom 0 notes).Pairwise (fun p q => p.tick ≤ q.tick) ∧
      (∀ m ∈ ofTrack tempo ticksPerBeat t, 0 ≤ m.delta) ∧
      ∀ tick, (placesFrom 0 notes).filter (fun p => p.tick = tick)
        = ((t.notes.map (stopOf t.channel tempo ticksPerBeat)).filter fun p => p.tick = tick) ++
            (t.notes.map (startOf t.channel tempo ticksPerBeat)).filter fun p => p.tick = tick := by
  refine ⟨_, _, deltasFrom 0 (placeNotes t.channel tempo ticksPerBeat t.notes), rfl, rfl, rfl,
    ?names, ?programs, ?notes, ?order, ?distances, ?ticks⟩
  case names => split_ifs <;> simp
  case programs => cases t.program <;> simp
  case notes =>
    rw [placesFrom_deltasFrom]
    exact placeNotes_perm_starts_stops t.channel tempo ticksPerBeat t.notes
  case order =>
    rw [placesFrom_deltasFrom]
    exact (placeNotes_sorted t.channel tempo ticksPerBeat t.notes).imp Placed.tick_le_of_before
  case distances =>
    exact fun m => delta_nonneg_of_mem_ofTrack hnotes (Int.mul_nonneg htempo.le hticks.le)
  case ticks =>
    intro tick
    rw [placesFrom_deltasFrom]
    exact placeNotes_on_tick t.channel tempo ticksPerBeat tick t.notes

/-- Notes out of order, of which two start on the tick on which a third stops. -/
theorem ofTrack_tick_by_tick_unsorted :
    let t : Track := ⟨"lead", 3, some 5, [⟨60, 2, 1⟩, ⟨60, 0, 2⟩, ⟨64, 9 / 4, 3 / 4⟩]⟩
    (∀ n ∈ t.notes, n.Valid) ∧ (0 : Int) < 60 ∧ (0 : Int) < 1 ∧
      ∃ names programs notes : List Timed,
        ofTrack 60 1 t = names ++ programs ++ notes ++ [⟨0, .endOfTrack⟩] ∧
        names = [⟨0, .trackName "lead"⟩] ∧ programs = [⟨0, .programChange 3 5⟩] ∧
        (placesFrom 0 notes).length = 6 ∧
        (placesFrom 0 notes).filter (fun p => p.tick = 2)
          = [⟨2, .noteOff 3 60 0⟩, ⟨2, .noteOn 3 60 127⟩, ⟨2, .noteOn 3 64 127⟩] := by
  intro t
  have hvalid : ∀ n ∈ t.notes, n.Valid := by
    intro n hn
    simp only [t, List.mem_cons, List.not_mem_nil, or_false] at hn
    rcases hn with rfl | rfl | rfl <;>
      exact ⟨by decide, by decide, by norm_num, by norm_num⟩
  obtain ⟨names, programs, notes, hall, hnames, hprograms, -, -, hperm, -, -, htick⟩ :=
    ofTrack_tick_by_tick hvalid (show (0 : Int) < 60 by decide) (show (0 : Int) < 1 by decide)
  have hname : Text.latin "lead" = "lead" := by cbv
  refine ⟨hvalid, by decide, by decide, names, programs, notes, hall, ?_, hprograms, ?_, ?_⟩
  · rw [hnames, if_neg (by decide), hname]
  · rw [hperm.length_eq]
    rfl
  · rw [htick 2]
    cbv

end Ostinato.Midi

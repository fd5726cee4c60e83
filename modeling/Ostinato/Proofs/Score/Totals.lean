import Mathlib
import Ostinato.Proofs.Midi.Looping
import Ostinato.Proofs.Number.Greatest
import Ostinato.Proofs.Score.Duration
import Ostinato.Proofs.Score.Layout
import Ostinato.Proofs.Score.Range

/-!
# The totals of an assembled score

How many notes an assembled score has, and how long it lasts, can be read off its parts. The number
comes from the tokens alone. The duration comes from the parts that sound: the last pass of a part
ends, to the ear, with the last slot that has a token, and whatever rests follow only count in the
passes before. `totalEvents_of_assemble` and `duration_of_assemble` say so.
-/

namespace Ostinato

/-- The number of tokens in the slots of a part. -/
def Part.tokenCount (p : Part) : Nat := (p.slots.map fun s => s.tokens.length).sum

/-- When a part that is played `loops` times is heard for the last time: all passes but one have
gone by, and in the last one the slots up to the last that sounds. -/
def Part.lastHeard (loops : Int) (p : Part) : Rat :=
  (loops - 1) * secondsOf p.slots + secondsOf (Part.sounding p.slots)

/-- The last time at which a part is heard, if it is heard at all. -/
def Part.heard (loops : Int) (p : Part) : List Rat :=
  if 0 < p.tokenCount then [p.lastHeard loops] else []

variable {i : Instrument} {loops : Int} {notes : List NoteEvent}

/-! ## The latest end -/

/-- The latest stop is the greatest one. -/
theorem IsLatest.greatest_eq {time : Rat} (h : IsLatest notes time) :
    greatest (notes.map NoteEvent.stop) = time := by
  by_cases hnotes : notes = []
  · rw [h.silent hnotes, hnotes]
    rfl
  · obtain ⟨n, hn, hstop⟩ := h.attained hnotes
    refine greatest_of_mem (hstop ▸ List.mem_map_of_mem hn) fun y hy => ?_
    obtain ⟨n', hn', rfl⟩ := List.mem_map.mp hy
    exact h.le n' hn'

/-- A score lasts until the latest of the ends that its tracks have. -/
theorem Score.duration_eq_greatest {s : Score} (hs : s.Valid) :
    s.duration = greatest (s.tracks.map fun t => greatest (t.notes.map NoteEvent.stop)) := by
  have hnonneg : ∀ t ∈ s.tracks, ∀ time ∈ t.notes.map NoteEvent.stop, 0 ≤ time := by
    intro t ht time htime
    obtain ⟨n, hn, rfl⟩ := List.mem_map.mp htime
    exact ((hs t ht).notes n hn).stop_nonneg
  rw [← s.isLatest_duration.greatest_eq, Score.notes, List.map_flatMap, greatest_flatMap hnonneg]

/-! ## Layouts -/

/-- The latest stop of later notes is that of all. -/
theorem IsLatest.append_of_le {notes' : List NoteEvent} {time : Rat} (h : IsLatest notes' time)
    (hne : notes' ≠ []) (hle : ∀ n ∈ notes, n.stop ≤ time) : IsLatest (notes ++ notes') time := by
  refine ⟨List.forall_mem_append.mpr ⟨hle, h.le⟩, fun _ => ?_, fun hnil => ?_⟩
  · obtain ⟨n, hn, hstop⟩ := h.attained hne
    exact ⟨n, List.mem_append_right notes hn, hstop⟩
  · exact absurd (List.append_eq_nil_iff.mp hnil).2 hne

/-- No note of a layout goes beyond its end. -/
theorem stop_le_of_mem_notesFrom {bs : List Beat} (hbs : ∀ b ∈ bs, b.Valid) {time : Rat}
    {n : NoteEvent} (h : n ∈ notesFrom time bs) : n.stop ≤ time + span bs := by
  induction bs generalizing time with
  | nil => cases h
  | cons b bs ih =>
    have hrest : ∀ b' ∈ bs, b'.Valid := fun b' hb' => hbs b' (List.mem_cons_of_mem b hb')
    have hspan : time + span (b :: bs) = time + b.length + span bs := by
      simp only [span, List.map_cons, List.sum_cons]
      ring
    rw [hspan]
    rcases List.mem_append.mp h with h | h
    · obtain ⟨p, -, rfl⟩ := List.mem_map.mp h
      exact le_add_of_nonneg_right (span_nonneg hrest)
    · exact ih hrest h

/-- A silent beat at the end is cut off. -/
theorem Beat.sounding_concat_silent (bs : List Beat) {b : Beat} (h : b.pitches = []) :
    Beat.sounding (bs ++ [b]) = Beat.sounding bs :=
  List.rdropWhile_concat_pos _ bs b (by simp [h])

/-- A beat at the end that sounds keeps all beats before it. -/
theorem Beat.sounding_concat (bs : List Beat) {b : Beat} (h : b.pitches ≠ []) :
    Beat.sounding (bs ++ [b]) = bs ++ [b] :=
  List.rdropWhile_concat_neg _ bs b (by simpa using h)

/-- One more beat adds its notes at the end of the others. -/
theorem notesFrom_concat (time : Rat) (bs : List Beat) (b : Beat) :
    notesFrom time (bs ++ [b]) = notesFrom time bs ++ b.notesAt (time + span bs) := by
  rw [notesFrom_append, notesFrom, notesFrom, List.append_nil]

/-- Rests at the end of a layout add no notes. -/
theorem notesFrom_sounding (time : Rat) (bs : List Beat) :
    notesFrom time (Beat.sounding bs) = notesFrom time bs := by
  induction bs using List.reverseRecOn with
  | nil => rfl
  | append_singleton bs b ih =>
    by_cases hb : b.pitches = []
    · rw [Beat.sounding_concat_silent bs hb, ih, notesFrom_concat, Beat.notesAt, hb, List.map_nil,
        List.append_nil]
    · rw [Beat.sounding_concat bs hb]

/-- A layout that sounds at all is heard up to the end of its last sounding beat. -/
theorem isLatest_notesFrom {bs : List Beat} (hbs : ∀ b ∈ bs, b.Valid)
    (hsounds : Beat.sounding bs ≠ []) (time : Rat) :
    notesFrom time bs ≠ [] ∧ IsLatest (notesFrom time bs) (time + span (Beat.sounding bs)) := by
  induction bs using List.reverseRecOn with
  | nil => exact absurd rfl hsounds
  | append_singleton bs b ih =>
    by_cases hb : b.pitches = []
    · have hrest := notesFrom_sounding time (bs ++ [b])
      rw [Beat.sounding_concat_silent bs hb] at hsounds hrest ⊢
      rw [← hrest, notesFrom_sounding]
      exact ih (fun b' hb' => hbs b' (List.mem_append_left [b] hb')) hsounds
    · obtain ⟨p, ps, hpitches⟩ := List.exists_cons_of_ne_nil hb
      -- the last beat has a note, and that ends where the layout does
      have hmem : ⟨p, time + span bs, b.length⟩ ∈ notesFrom time (bs ++ [b]) := by
        rw [notesFrom_concat, Beat.notesAt, hpitches]
        exact List.mem_append_right _ List.mem_cons_self
      have hstop : (⟨p, time + span bs, b.length⟩ : NoteEvent).stop
          = time + span (bs ++ [b]) := by
        rw [NoteEvent.stop, span_append, add_assoc]
        simp [span]
      rw [Beat.sounding_concat bs hb]
      exact ⟨List.ne_nil_of_mem hmem, fun n hn => stop_le_of_mem_notesFrom hbs hn,
        fun _ => ⟨_, hmem, hstop⟩, fun hnil => absurd hnil (List.ne_nil_of_mem hmem)⟩

/-- In a layout that is repeated, the last pass stands behind all others, which end where it
begins. -/
theorem isLatest_notesFrom_replicate {bs : List Beat} (hbs : ∀ b ∈ bs, b.Valid)
    (hsounds : Beat.sounding bs ≠ []) (n : Nat) :
    IsLatest (notesFrom 0 (List.replicate (n + 1) bs).flatten)
      (n * span bs + span (Beat.sounding bs)) := by
  have hpassed : ∀ b ∈ (List.replicate n bs).flatten, b.Valid := by
    intro b hb
    obtain ⟨pass, hpass, hb⟩ := List.mem_flatten.mp hb
    rw [List.eq_of_mem_replicate hpass] at hb
    exact hbs b hb
  have hsounding : ∀ b ∈ Beat.sounding bs, b.Valid := fun b hb =>
    hbs b ((List.rdropWhile_prefix _ bs).subset hb)
  obtain ⟨hne, hlatest⟩ := isLatest_notesFrom hbs hsounds (n * span bs)
  rw [List.replicate_succ', List.flatten_append, List.flatten_singleton, notesFrom_append,
    span_replicate, zero_add]
  refine hlatest.append_of_le hne fun m hm => ?_
  have hle := stop_le_of_mem_notesFrom hpassed hm
  rw [span_replicate, zero_add] at hle
  exact le_add_of_le_of_nonneg hle (span_nonneg hsounding)

/-! ## Time lines -/

variable {p : Part}

/-- A part has tokens just if some slot of it sounds. -/
theorem Part.tokenCount_pos_iff : 0 < p.tokenCount ↔ Part.sounding p.slots ≠ [] := by
  rw [Nat.pos_iff_ne_zero, ne_eq, Part.tokenCount, List.sum_eq_zero_iff, Part.sounding, ne_eq,
    List.rdropWhile_eq_nil_iff]
  simp

/-- The notes of a time line are as many as the tokens of all passes. -/
theorem length_timeline (h : timeline i p.slots loops = .ok notes) :
    notes.length = loops.toNat * p.tokenCount := by
  have hpass : ∀ pass, (p.slots.zipIdx.flatMap
      fun q => i.strike q.1 (slotStart p.slots pass q.2)).length = p.tokenCount := by
    intro pass
    have hslots : p.tokenCount
        = ((p.slots.zipIdx.map Prod.fst).map fun s => s.tokens.length).sum := by
      rw [List.zipIdx_map_fst, Part.tokenCount]
    rw [List.length_flatMap, hslots, List.map_map]
    simp [Instrument.strike, Function.comp_def]
  rw [timeline_eq_flatMap h, List.length_flatMap]
  simp [hpass]

/-- The beats of slots span the seconds of the slots. -/
theorem span_of_mapM {slots : List Slot} {bs : List Beat}
    (h : slots.mapM (Beat.ofSlot i) = .ok bs) : span bs = secondsOf slots := by
  obtain rfl := eq_map_of_mapM (fun s b hb => (Beat.known_of_ofSlot hb).2.2) h
  exact span_map_beat slots

/-- A part that has tokens and is played at all is heard up to its last sounding slot. -/
theorem isLatest_timeline (h : timeline i p.slots loops = .ok notes) (hloops : 1 ≤ loops)
    (htokens : 0 < p.tokenCount) : IsLatest notes (p.lastHeard loops) := by
  obtain ⟨bs, hbs⟩ := beats_of_timeline h hloops
  have hsounding := Beat.sounding_of_mapM hbs
  have hsounds : Beat.sounding bs ≠ [] := by
    rw [ne_eq, ← List.length_eq_zero_iff, length_of_mapM hsounding, List.length_eq_zero_iff]
    exact Part.tokenCount_pos_iff.mp htokens
  obtain ⟨n, hn⟩ := Nat.exists_eq_add_of_le' (by omega : 1 ≤ loops.toNat)
  have hloops' : (loops : Rat) - 1 = n := by
    have hint : loops - 1 = n := by omega
    exact_mod_cast congrArg (Int.cast : Int → Rat) hint
  rw [timeline_of_beats hbs, hn] at h
  cases h
  rw [Part.lastHeard, hloops', ← span_of_mapM hbs, ← span_of_mapM hsounding]
  exact isLatest_notesFrom_replicate (Beat.valid_of_mapM hbs) hsounds n

/-- No slot is longer than a half note. One whose code is unknown counts for nothing. -/
theorem Slot.seconds_bounds (s : Slot) : 0 ≤ s.seconds ∧ s.seconds ≤ 2 := by
  rw [Slot.seconds]
  cases hlength : s.length with
  | error e => exact ⟨le_rfl, zero_le_two⟩
  | ok d =>
    have hd := Slot.isLength_of_length hlength
    exact ⟨hd.pos.le, hd.le_half_note⟩

/-- Slots do not last less than nothing. -/
theorem secondsOf_nonneg (slots : List Slot) : 0 ≤ secondsOf slots := by
  apply List.sum_nonneg
  intro d hd
  obtain ⟨s, -, rfl⟩ := List.mem_map.mp hd
  exact s.seconds_bounds.1

/-- A part that is played is last heard no earlier than at zero. -/
theorem Part.heard_nonneg (hloops : 1 ≤ loops) : ∀ time ∈ p.heard loops, 0 ≤ time := by
  intro time htime
  have hpasses : (0 : Rat) ≤ loops - 1 := by
    have hloops' : (1 : Rat) ≤ loops := by exact_mod_cast hloops
    linarith
  obtain ⟨-, rfl⟩ : 0 < p.tokenCount ∧ time = p.lastHeard loops := by
    simpa [Part.heard] using htime
  exact add_nonneg (mul_nonneg hpasses (secondsOf_nonneg p.slots))
    (secondsOf_nonneg (Part.sounding p.slots))

/-- The latest end on a track is that of the part that it plays. -/
theorem greatest_stop_of_timeline (h : timeline i p.slots loops = .ok notes) (hloops : 1 ≤ loops) :
    greatest (notes.map NoteEvent.stop) = greatest (p.heard loops) := by
  by_cases hp : 0 < p.tokenCount
  · rw [Part.heard, if_pos hp, greatest_singleton]
    exact (isLatest_timeline h hloops hp).greatest_eq
  · have hsilent : notes = [] := by
      rw [← List.length_eq_zero_iff, length_timeline h, Nat.eq_zero_of_not_pos hp, mul_zero]
    rw [Part.heard, if_neg hp, hsilent, List.map_nil]

/-- What is heard of parts is heard of those that have tokens. -/
theorem flatMap_heard (loops : Int) (parts : List (String × Part)) :
    parts.flatMap (fun p => p.2.heard loops)
      = (parts.filter fun p => 0 < p.2.tokenCount).map fun p => p.2.lastHeard loops := by
  induction parts with
  | nil => rfl
  | cons p rest ih =>
    rw [List.flatMap_cons, ih, List.filter_cons, Part.heard]
    by_cases hp : 0 < p.2.tokenCount <;> simp [hp]

/-! ## Scores -/

variable {e : Ensemble} {tempo : Int} {parts : List (String × Part)} {s : Score}

/-- A score has one track for each part. So whatever can be told of a track from the part that it
plays can be told of the score from its parts. -/
theorem map_tracks_of_assemble {α : Type} {f : Track → α} {g : String × Part → α}
    (hfg : ∀ p t i, timeline i (Prod.snd p).slots loops = .ok t.notes → f t = g p)
    (h : assemble e loops tempo parts = .ok s) : s.tracks.map f = parts.map g := by
  obtain ⟨-, hts⟩ := assemble_eq_ok_iff.mp h
  clear h
  generalize 0 = taken at hts
  generalize s.tracks = ts at hts
  induction parts generalizing taken ts with
  | nil =>
    cases hts
    rfl
  | cons p rest ih =>
    obtain ⟨source, part⟩ := p
    obtain ⟨t, more, ht, hmore, rfl⟩ := tracksAfter_cons_eq_ok_iff.mp hts
    obtain ⟨i, -, -, -, -, hnotes⟩ := trackAfter_eq_ok ht
    rw [List.map_cons, List.map_cons, hfg (source, part) t i hnotes, ih _ more hmore]

/-- An assembled score has as many notes as its parts have tokens, in every loop. -/
theorem totalEvents_of_assemble (h : assemble e loops tempo parts = .ok s) :
    s.totalEvents = loops.toNat * (parts.map fun p => p.2.tokenCount).sum := by
  rw [Score.totalEvents, Score.notes, List.length_flatMap,
    map_tracks_of_assemble (fun p t i hnotes => length_timeline hnotes) h, List.sum_map_mul_left]

/-- An assembled score lasts as long as the part that is heard last. -/
theorem duration_of_assemble (h : assemble e loops tempo parts = .ok s) (hloops : 1 ≤ loops) :
    s.duration
      = greatest ((parts.filter fun p => 0 < p.2.tokenCount).map fun p => p.2.lastHeard loops) := by
  have hvalid : s.Valid := valid_of_tracksAfter (assemble_eq_ok_iff.mp h).2
  have htracks : (s.tracks.map fun t => greatest (t.notes.map NoteEvent.stop))
      = parts.map fun p => greatest (p.2.heard loops) :=
    map_tracks_of_assemble (fun p t i hnotes => greatest_stop_of_timeline hnotes hloops) h
  rw [Score.duration_eq_greatest hvalid, htracks,
    ← greatest_flatMap fun p _ => Part.heard_nonneg hloops, flatMap_heard]

end Ostinato

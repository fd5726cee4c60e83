import Mathlib
import Ostinato.Proofs.Midi.Length
import Ostinato.Proofs.Midi.Structure
import Ostinato.Proofs.Score.Playing

/-!
# How far apart messages stand

The distance of a message is written as a quantity, for which the file format has room in four
bytes. Nothing bounds a distance while a score is assembled or exported: a rest has no message of
its own, so it adds to the distance of the next one. The main result, `delta_fits_iff`, says exactly
which parts are exported with distances that fit, and `delta_over_limit` is one that is not.

The sort stands in the way of saying what a distance is, but not of saying how great it can be. The
distances of messages in order are bounded if and only if each tick on which something happens has
another one close before it, and that is a matter of the set of those ticks alone.
-/

namespace Ostinato.Midi

variable {i : Instrument} {slots : List Slot} {notes : List NoteEvent}

/-- The tick on which some slots are over that are played from the top of a track. -/
def tickAfter (tempo ticksPerBeat : Int) (slots : List Slot) : Int :=
  ticks (secondsOf slots) tempo ticksPerBeat

/-- Silences take no more ticks than a limit: where some rests stand in front of a slot that sounds,
they are over at most so many ticks after the slots in front of them. -/
def SilencesWithin (limit tempo ticksPerBeat : Int) (slots : List Slot) : Prop :=
  ∀ before rests s after, slots = before ++ rests ++ s :: after →
    (∀ r ∈ rests, r.tokens = []) → s.tokens ≠ [] →
    tickAfter tempo ticksPerBeat (before ++ rests) ≤ tickAfter tempo ticksPerBeat before + limit

/-- No slot takes more ticks than a limit, wherever it stands. -/
def SlotsWithin (limit tempo ticksPerBeat : Int) : Prop :=
  ∀ before s,
    tickAfter tempo ticksPerBeat (before ++ [s]) ≤ tickAfter tempo ticksPerBeat before + limit

/-- No more than so many rests stand in a row. -/
def RestsWithin (count : Nat) (slots : List Slot) : Prop :=
  ∀ before rests after, slots = before ++ rests ++ after → (∀ r ∈ rests, r.tokens = []) →
    rests.length ≤ count

/-- A tick on which a track begins, or a note of it starts or stops. -/
def IsMark (tempo ticksPerBeat : Int) (notes : List NoteEvent) (tick : Int) : Prop :=
  tick = 0 ∨
    ∃ n ∈ notes, tick = ticks n.time tempo ticksPerBeat ∨ tick = ticks n.stop tempo ticksPerBeat

/-- A tick has a mark before it, no more ticks away than a limit. -/
def FollowsMark (limit tempo ticksPerBeat : Int) (notes : List NoteEvent) (b : Int) : Prop :=
  ∃ a, IsMark tempo ticksPerBeat notes a ∧ a < b ∧ b ≤ a + limit

/-- Each mark but the first follows another one within a limit. -/
def MarksWithin (limit tempo ticksPerBeat : Int) (notes : List NoteEvent) : Prop :=
  ∀ b, IsMark tempo ticksPerBeat notes b → 0 < b → FollowsMark limit tempo ticksPerBeat notes b

variable {limit tempo ticksPerBeat : Int}

/-! ## Quantities -/

/-- The head of a quantity has at most some number of bytes just if that many groups of seven bits
hold it. -/
theorem length_quantityHead_le_iff (n k : Nat) : (quantityHead n).length ≤ k ↔ n < 128 ^ k := by
  induction n using quantityHead.induct generalizing k with
  | case1 => simp [quantityHead]
  | case2 n hn ih =>
    rw [quantityHead, dif_neg hn, List.length_append, List.length_singleton]
    cases k with
    | zero => omega
    | succ k =>
      rw [Nat.add_le_add_iff_right, ih, Nat.div_lt_iff_lt_mul (by decide), Nat.pow_succ]

/-- Each byte of a quantity has room for seven bits. -/
theorem length_quantity_le_iff (n k : Nat) : (quantity n).length ≤ k + 1 ↔ n < 128 ^ (k + 1) := by
  rw [quantity, List.length_append, List.length_singleton, Nat.add_le_add_iff_right,
    length_quantityHead_le_iff, Nat.div_lt_iff_lt_mul (by decide), Nat.pow_succ]

/-! ## Distances -/

/-- Messages in order are close together if each of them has an earlier tick close before it. It
need not be that of the message in front of it, which can be nearer still. -/
theorem delta_le_deltasFrom_iff {ps : List Placed}
    (hsorted : ps.Pairwise fun a b => a.before b = true) {tick : Int}
    (hfrom : ∀ p ∈ ps, tick ≤ p.tick) (hlimit : 0 ≤ limit) :
    (∀ m ∈ deltasFrom tick ps, m.delta ≤ limit) ↔
      ∀ p ∈ ps, tick < p.tick →
        ∃ a, (a = tick ∨ ∃ q ∈ ps, a = q.tick) ∧ a < p.tick ∧ p.tick ≤ a + limit := by
  induction ps generalizing tick with
  | nil => simp [deltasFrom]
  | cons p ps ih =>
    obtain ⟨hfirst, hrest⟩ := List.pairwise_cons.mp hsorted
    have hle : ∀ q ∈ ps, p.tick ≤ q.tick := fun q hq => Placed.tick_le_of_before (hfirst q hq)
    have hp := hfrom p List.mem_cons_self
    rw [deltasFrom, List.forall_mem_cons, ih hrest hle]
    constructor
    · rintro ⟨hdelta : p.tick - tick ≤ limit, hclose⟩ q hq hlt
      rcases List.mem_cons.mp hq with rfl | hq
      · exact ⟨tick, Or.inl rfl, hlt, by omega⟩
      · rcases (hle q hq).lt_or_eq with hbehind | hsame
        · obtain ⟨a, hmark, ha⟩ := hclose q hq hbehind
          refine ⟨a, Or.inr ?_, ha⟩
          rcases hmark with rfl | ⟨r, hr, rfl⟩
          · exact ⟨p, List.mem_cons_self, rfl⟩
          · exact ⟨r, List.mem_cons_of_mem p hr, rfl⟩
        · exact ⟨tick, Or.inl rfl, hlt, by omega⟩
    · intro hclose
      refine ⟨show p.tick - tick ≤ limit from ?_, fun q hq hbehind => ?_⟩
      · rcases hp.lt_or_eq with hlt | hsame
        · obtain ⟨a, rfl | ⟨q, hq, rfl⟩, ha, hnear⟩ := hclose p List.mem_cons_self hlt
          · omega
          · -- no message stands before the first
            rcases List.mem_cons.mp hq with rfl | hq
            · exact absurd ha (lt_irrefl _)
            · exact absurd ha (hle q hq).not_gt
        · omega
      · obtain ⟨a, hmark, ha, hnear⟩ := hclose q (List.mem_cons_of_mem p hq) (hp.trans_lt hbehind)
        rcases hmark with rfl | ⟨r, hr, rfl⟩
        · exact ⟨p.tick, Or.inl rfl, hbehind, by omega⟩
        · rcases List.mem_cons.mp hr with rfl | hr
          · exact ⟨r.tick, Or.inl rfl, ha, hnear⟩
          · exact ⟨r.tick, Or.inr ⟨r, hr, rfl⟩, ha, hnear⟩

/-- The marks of a track are its top and the ticks of the messages of its notes. -/
theorem isMark_iff_placeNotes (channel : Int) {a : Int} :
    IsMark tempo ticksPerBeat notes a ↔
      a = 0 ∨ ∃ q ∈ placeNotes channel tempo ticksPerBeat notes, a = q.tick := by
  refine or_congr_right ⟨?_, ?_⟩
  · rintro ⟨n, hn, rfl | rfl⟩
    · exact ⟨_, mem_placeNotes.mpr ⟨n, hn, Or.inl rfl⟩, rfl⟩
    · exact ⟨_, mem_placeNotes.mpr ⟨n, hn, Or.inr rfl⟩, rfl⟩
  · rintro ⟨q, hq, rfl⟩
    obtain ⟨n, hn, rfl | rfl⟩ := mem_placeNotes.mp hq
    · exact ⟨n, hn, Or.inl rfl⟩
    · exact ⟨n, hn, Or.inr rfl⟩

/-- How far apart the messages of a track stand is a matter of its marks alone. -/
theorem delta_le_ofTrack_iff {t : Track} (hnotes : ∀ n ∈ t.notes, n.Valid)
    (hspeed : 0 ≤ tempo * ticksPerBeat) (hlimit : 0 ≤ limit) :
    (∀ m ∈ ofTrack tempo ticksPerBeat t, m.delta ≤ limit) ↔
      MarksWithin limit tempo ticksPerBeat t.notes := by
  have hfrom : ∀ p ∈ placeNotes t.channel tempo ticksPerBeat t.notes, 0 ≤ p.tick :=
    fun p hp => tick_nonneg_of_mem_placeNotes hnotes hspeed hp
  -- only the notes have distances
  have htrack : (∀ m ∈ ofTrack tempo ticksPerBeat t, m.delta ≤ limit) ↔
      ∀ m ∈ deltasFrom 0 (placeNotes t.channel tempo ticksPerBeat t.notes), m.delta ≤ limit := by
    simp only [ofTrack, List.forall_mem_append, List.forall_mem_singleton]
    refine ⟨fun h => h.1.2, fun h => ⟨⟨fun m hm => ?_, h⟩, hlimit⟩⟩
    rw [delta_of_mem_trackHead hm]
    exact hlimit
  rw [htrack, delta_le_deltasFrom_iff (placeNotes_sorted ..) hfrom hlimit, MarksWithin]
  simp only [FollowsMark, isMark_iff_placeNotes t.channel]
  constructor
  · rintro h b (rfl | ⟨p, hp, rfl⟩) hb
    · exact absurd hb (lt_irrefl 0)
    · exact h p hp hb
  · exact fun h p hp => h p.tick (Or.inr ⟨p, hp, rfl⟩)

/-! ## Silences -/

/-- Nothing has passed behind no slots. -/
@[simp]
theorem tickAfter_nil (tempo ticksPerBeat : Int) : tickAfter tempo ticksPerBeat [] = 0 :=
  ticks_zero tempo ticksPerBeat

/-- The marks of a layout are the two ends of each slot that sounds. -/
theorem isMark_notesFrom_iff {tick : Int} :
    IsMark tempo ticksPerBeat (notesFrom 0 (slots.map i.beat)) tick ↔
      tick = 0 ∨ ∃ before s after, slots = before ++ s :: after ∧ s.tokens ≠ [] ∧
        (tick = tickAfter tempo ticksPerBeat before ∨
          tick = tickAfter tempo ticksPerBeat (before ++ [s])) := by
  simp only [tickAfter, secondsOf_concat]
  refine or_congr_right ⟨?_, ?_⟩
  · rintro ⟨n, hn, htick⟩
    obtain ⟨before, s, after, hsplit, hstrike⟩ := mem_notesFrom_map_beat_iff.mp hn
    rw [zero_add] at hstrike
    obtain ⟨token, htoken, rfl⟩ := List.mem_map.mp hstrike
    exact ⟨before, s, after, hsplit, List.ne_nil_of_mem htoken, htick⟩
  · rintro ⟨before, s, after, hsplit, hsounds, htick⟩
    obtain ⟨token, htoken⟩ := List.exists_mem_of_ne_nil _ hsounds
    refine ⟨⟨i.noteNumber token, secondsOf before, s.seconds⟩, ?_, htick⟩
    refine mem_notesFrom_map_beat_iff.mpr ⟨before, s, after, hsplit, ?_⟩
    rw [zero_add]
    exact List.mem_map_of_mem htoken

/-- A slot that sounds has messages where it starts and where it stops. -/
theorem isMark_of_sounds (tempo ticksPerBeat : Int) (i : Instrument) {before after : List Slot}
    {s : Slot} (hsplit : slots = before ++ s :: after) (hsounds : s.tokens ≠ []) :
    IsMark tempo ticksPerBeat (notesFrom 0 (slots.map i.beat))
        (tickAfter tempo ticksPerBeat before) ∧
      IsMark tempo ticksPerBeat (notesFrom 0 (slots.map i.beat))
        (tickAfter tempo ticksPerBeat (before ++ [s])) :=
  ⟨isMark_notesFrom_iff.mpr (Or.inr ⟨before, s, after, hsplit, hsounds, Or.inl rfl⟩),
    isMark_notesFrom_iff.mpr (Or.inr ⟨before, s, after, hsplit, hsounds, Or.inr rfl⟩)⟩

section Layout

variable (hspeed : 0 ≤ tempo * ticksPerBeat)
include hspeed

/-- More slots end no earlier. -/
theorem tickAfter_le_append (slots more : List Slot) :
    tickAfter tempo ticksPerBeat slots ≤ tickAfter tempo ticksPerBeat (slots ++ more) := by
  apply ticks_mono_of_mul hspeed
  rw [secondsOf_append]
  exact le_add_of_nonneg_right (secondsOf_nonneg more)

/-- If no slot takes more ticks than a silence may, then a slot that sounds has a mark close before
it, unless it starts with its track. -/
theorem exists_mark_before
    (hshort : SlotsWithin limit tempo ticksPerBeat)
    (hsilences : SilencesWithin limit tempo ticksPerBeat slots) {before rests after : List Slot}
    {s : Slot} (hsplit : slots = before ++ rests ++ s :: after)
    (hrests : ∀ r ∈ rests, r.tokens = []) (hsounds : s.tokens ≠ [])
    (hpos : 0 < tickAfter tempo ticksPerBeat (before ++ rests)) :
    FollowsMark limit tempo ticksPerBeat (notesFrom 0 (slots.map i.beat))
      (tickAfter tempo ticksPerBeat (before ++ rests)) := by
  -- back over the slots in front of the rests, to one that sounds and does not end on their tick
  induction before using List.reverseRecOn generalizing rests s after with
  | nil =>
    have hsilence := hsilences [] rests s after hsplit hrests hsounds
    rw [tickAfter_nil] at hsilence
    exact ⟨0, Or.inl rfl, hpos, hsilence⟩
  | append_singleton before last ih =>
    by_cases hlast : last.tokens = []
    · have hregroup : before ++ [last] ++ rests = before ++ last :: rests := by simp
      rw [hregroup] at hsplit hpos ⊢
      exact ih hsplit (List.forall_mem_cons.mpr ⟨hlast, hrests⟩) hsounds hpos
    · have hsplit' : slots = before ++ last :: (rests ++ s :: after) := by simpa using hsplit
      obtain ⟨hstart, hstop⟩ := isMark_of_sounds tempo ticksPerBeat i hsplit' hlast
      rcases (tickAfter_le_append hspeed (before ++ [last]) rests).lt_or_eq with hlt | hover
      · exact ⟨_, hstop, hlt, hsilences _ _ _ _ hsplit hrests hsounds⟩
      · rw [← hover] at hpos ⊢
        rcases (tickAfter_le_append hspeed before [last]).lt_or_eq with hlt | hover'
        · exact ⟨_, hstart, hlt, hshort before last⟩
        · rw [← hover', ← List.append_nil before] at hpos ⊢
          exact ih (by simpa using hsplit') (by simp) hlast hpos

omit hspeed in
/-- An element that is not in the middle of a list stands in front of it or behind it. -/
theorem split_outside {α : Type} {before rests before' rest rest' : List α} {x : α}
    (h : before ++ rests ++ rest = before' ++ x :: rest') (hx : x ∉ rests) :
    (∃ more, before = before' ++ [x] ++ more) ∨ ∃ more, before' = before ++ rests ++ more := by
  rcases List.append_eq_append_iff.mp h with ⟨more, hbefore, -⟩ | ⟨more, hbefore, hmore⟩
  · exact Or.inr ⟨more, hbefore⟩
  · cases more with
    | nil => exact Or.inr ⟨[], by simpa using hbefore.symm⟩
    | cons y more =>
      cases hmore
      rcases List.append_eq_append_iff.mp hbefore with ⟨ys, -, hrests⟩ | ⟨ys, hbefore', hys⟩
      · exact absurd (hrests ▸ by simp) hx
      · cases ys with
        | nil =>
          rw [List.nil_append] at hys
          exact absurd (hys ▸ List.mem_cons_self) hx
        | cons z ys =>
          cases hys
          exact Or.inl ⟨ys, by simpa using hbefore'⟩

/-- No mark stands within a silence. -/
theorem mark_outside {before rests rest : List Slot} (hsplit : slots = before ++ rests ++ rest)
    (hrests : ∀ r ∈ rests, r.tokens = []) {a : Int}
    (ha : IsMark tempo ticksPerBeat (notesFrom 0 (slots.map i.beat)) a) :
    a ≤ tickAfter tempo ticksPerBeat before ∨
      tickAfter tempo ticksPerBeat (before ++ rests) ≤ a := by
  rcases isMark_notesFrom_iff.mp ha with rfl | ⟨before', s, after, hsplit', hsounds, htick⟩
  · exact Or.inl (ticks_nonneg_of_mul hspeed (secondsOf_nonneg before))
  · have hspan := tickAfter_le_append hspeed before' [s]
    rcases split_outside (hsplit.symm.trans hsplit') (mt (hrests s) hsounds) with
      ⟨more, rfl⟩ | ⟨more, rfl⟩
    · have hover := tickAfter_le_append hspeed (before' ++ [s]) more
      exact Or.inl (by rcases htick with rfl | rfl <;> omega)
    · have hover := tickAfter_le_append hspeed (before ++ rests) more
      exact Or.inr (by rcases htick with rfl | rfl <;> omega)

/-- If no slot takes more ticks than a limit, marks are within the limit as soon as silences are. -/
theorem marksWithin_notesFrom_iff
    (hshort : SlotsWithin limit tempo ticksPerBeat) (hlimit : 0 ≤ limit) :
    MarksWithin limit tempo ticksPerBeat (notesFrom 0 (slots.map i.beat)) ↔
      SilencesWithin limit tempo ticksPerBeat slots := by
  constructor
  · intro hmarks before rests s after hsplit hrests hsounds
    by_contra hlong
    have htop : 0 ≤ tickAfter tempo ticksPerBeat before :=
      ticks_nonneg_of_mul hspeed (secondsOf_nonneg before)
    obtain ⟨hstart, -⟩ := isMark_of_sounds tempo ticksPerBeat i hsplit hsounds
    obtain ⟨a, ha, hlt, hnear⟩ := hmarks _ hstart (by omega)
    rcases mark_outside hspeed hsplit hrests ha with hle | hge <;> omega
  · intro hsilences b hb hpos
    rcases isMark_notesFrom_iff.mp hb with rfl | ⟨before, s, after, hsplit, hsounds, htick⟩
    · exact absurd hpos (lt_irrefl 0)
    · have hbefore : 0 < tickAfter tempo ticksPerBeat before →
          FollowsMark limit tempo ticksPerBeat (notesFrom 0 (slots.map i.beat))
            (tickAfter tempo ticksPerBeat before) := by
        intro hpos
        rw [← List.append_nil before] at hsplit hpos ⊢
        exact exists_mark_before hspeed hshort hsilences hsplit (by simp) hsounds hpos
      rcases htick with rfl | rfl
      · exact hbefore hpos
      · rcases (tickAfter_le_append hspeed before [s]).lt_or_eq with hlt | hover
        · obtain ⟨hstart, -⟩ := isMark_of_sounds tempo ticksPerBeat i hsplit hsounds
          exact ⟨_, hstart, hlt, hshort before s⟩
        · rw [← hover] at hpos ⊢
          exact hbefore hpos

end Layout

/-- How far apart the messages of a part's track stand is a matter of its silences alone. -/
theorem delta_le_iff_of_timeline {p : Part} {loops : Int} {t : Track}
    (h : timeline i p.slots loops = .ok t.notes) (hspeed : 0 ≤ tempo * ticksPerBeat)
    (hshort : SlotsWithin limit tempo ticksPerBeat) (hlimit : 0 ≤ limit) :
    (∀ m ∈ ofTrack tempo ticksPerBeat t, m.delta ≤ limit) ↔
      SilencesWithin limit tempo ticksPerBeat (p.played loops) := by
  have hnotes : ∀ n ∈ t.notes, n.Valid := by
    obtain ⟨bs, hbs, hlayout⟩ := exists_beats_of_timeline h
    rw [hlayout]
    exact fun n hn => valid_of_mem_notesFrom le_rfl hbs hn
  rw [delta_le_ofTrack_iff hnotes hspeed hlimit, notes_of_timeline h]
  exact marksWithin_notesFrom_iff hspeed hshort hlimit

/-! ## Scores -/

/-- The greatest distance that takes no more than four bytes. -/
def maxDistance : Int := 0x0fffffff

/-- A distance is no greater than the greatest one just if it takes at most four bytes. -/
theorem le_maxDistance_iff {delta : Int} (hnonneg : 0 ≤ delta) :
    delta ≤ maxDistance ↔ (quantity delta.toNat).length ≤ 4 := by
  rw [length_quantity_le_iff, maxDistance]
  omega

/-- No tempo and no resolution is so fast and so fine that a half note takes more than 327670 ticks.
Rounding can add one, however many slots there are. -/
theorem tickAfter_append_le (htempo : 0 ≤ tempo) (htempo' : tempo ≤ 300)
    (hticks : 0 ≤ ticksPerBeat) (hticks' : ticksPerBeat ≤ 0x7fff) (before more : List Slot) :
    tickAfter tempo ticksPerBeat (before ++ more)
      ≤ tickAfter tempo ticksPerBeat before + (327670 * more.length + 1) := by
  have hfast : ((tempo * ticksPerBeat : Int) : Rat) / 60 ≤ 163835 := by
    have hspeed : tempo * ticksPerBeat ≤ 300 * 0x7fff :=
      Int.mul_le_mul htempo' hticks' hticks (by decide)
    rw [div_le_iff₀ (by norm_num)]
    exact_mod_cast hspeed
  have hforward : (0 : Rat) ≤ (tempo * ticksPerBeat : Int) / 60 :=
    div_nonneg (by exact_mod_cast Int.mul_nonneg htempo hticks) (by norm_num)
  have hmore : exactTicks (secondsOf more) tempo ticksPerBeat ≤ 327670 * more.length := by
    calc exactTicks (secondsOf more) tempo ticksPerBeat
        = secondsOf more * ((tempo * ticksPerBeat : Int) / 60) := exactTicks_eq_mul ..
      _ ≤ 2 * more.length * 163835 :=
        mul_le_mul (secondsOf_le more) hfast hforward (by positivity)
      _ = 327670 * more.length := by ring
  have hround := ticks_add_sub_ticks_le (secondsOf before) (secondsOf more) tempo ticksPerBeat
  rw [tickAfter, secondsOf_append, tickAfter]
  have hle := hround.trans (add_le_add_left hmore 1)
  rw [← sub_le_iff_le_add']
  exact_mod_cast hle

/-- Even at the fastest tempo and the finest resolution 819 rests are within the greatest
distance. -/
theorem RestsWithin.silencesWithin {slots : List Slot} (h : RestsWithin 819 slots)
    (htempo : 0 ≤ tempo) (htempo' : tempo ≤ 300) (hticks : 0 ≤ ticksPerBeat)
    (hticks' : ticksPerBeat ≤ 0x7fff) : SilencesWithin maxDistance tempo ticksPerBeat slots := by
  intro before rests s after hsplit hrests hsounds
  have hcount : rests.length ≤ 819 := h before rests (s :: after) hsplit hrests
  have hlength := tickAfter_append_le htempo htempo' hticks hticks' before rests
  rw [maxDistance]
  omega

variable {e : Ensemble} {loops : Int} {parts : List (String × Part)} {s : Score}

/-- The distances in a file are those on the tracks of its score. -/
theorem forall_delta_iff_of_ofScore {f : File} (h : ofScore ticksPerBeat s = .ok f)
    (P : Int → Prop) (hzero : P 0) :
    (∀ ms ∈ f.tracks, ∀ m ∈ ms, P m.delta) ↔
      ∀ t ∈ s.tracks, ∀ m ∈ ofTrack s.tempo ticksPerBeat t, P m.delta := by
  obtain ⟨n, -, rfl⟩ := ofScore_eq_ok_iff.mp h
  have hhead : ∀ m ∈ tempoTrack n, P m.delta := by
    simpa [tempoTrack] using hzero
  rw [List.forall_mem_cons, List.forall_mem_map]
  exact and_iff_right hhead

/-- The distances of an assembled score are within a limit if the silences of its parts are. -/
theorem delta_le_iff_of_assemble (h : assemble e loops tempo parts = .ok s)
    (hspeed : 0 ≤ tempo * ticksPerBeat)
    (hshort : SlotsWithin limit tempo ticksPerBeat) (hlimit : 0 ≤ limit) :
    (∀ t ∈ s.tracks, ∀ m ∈ ofTrack tempo ticksPerBeat t, m.delta ≤ limit) ↔
      ∀ p ∈ parts, SilencesWithin limit tempo ticksPerBeat (p.2.played loops) := by
  have htracks : (s.tracks.map fun t => ∀ m ∈ ofTrack tempo ticksPerBeat t, m.delta ≤ limit)
      = parts.map fun p => SilencesWithin limit tempo ticksPerBeat (p.2.played loops) :=
    map_tracks_of_assemble
      (fun p t i hnotes => propext (delta_le_iff_of_timeline hnotes hspeed hshort hlimit)) h
  have hall := congrArg (fun ps : List Prop => ∀ q ∈ ps, q) htracks
  simpa only [List.forall_mem_map, eq_iff_iff] using hall

/-- Which scores have distances that fit. At every tempo and resolution in range an assembled score
has a file, and none of its distances is negative. A distance takes no more than four bytes exactly
if it is at most the greatest one. All of them are if and only if, in the order of playing, each
silence in front of a slot that sounds is at most so many ticks long: nothing else makes a distance
too great. No part with at most 819 rests in a row, across the passes too, has a longer silence. -/
theorem delta_fits_iff (h : assemble e loops tempo parts = .ok s) (htempo : 20 ≤ tempo)
    (htempo' : tempo ≤ 300) (hticks : 1 ≤ ticksPerBeat) (hticks' : ticksPerBeat ≤ 0x7fff) :
    ∃ f, ofScore ticksPerBeat s = .ok f ∧
      (∀ ms ∈ f.tracks, ∀ m ∈ ms, 0 ≤ m.delta ∧
        (m.delta ≤ maxDistance ↔ (quantity m.delta.toNat).length ≤ 4)) ∧
      ((∀ ms ∈ f.tracks, ∀ m ∈ ms, m.delta ≤ maxDistance) ↔
        ∀ p ∈ parts, SilencesWithin maxDistance tempo ticksPerBeat (p.2.played loops)) ∧
      ((∀ p ∈ parts, RestsWithin 819 (p.2.played loops)) →
        ∀ ms ∈ f.tracks, ∀ m ∈ ms, m.delta ≤ maxDistance) := by
  obtain ⟨rfl, hts⟩ := assemble_eq_ok_iff.mp h
  have hvalid : s.Valid := valid_of_tracksAfter hts
  have hspeed : 0 ≤ s.tempo * ticksPerBeat := Int.mul_nonneg (by omega) (by omega)
  have hroom : (0 : Int) ≤ maxDistance := by decide
  have hshort : SlotsWithin maxDistance s.tempo ticksPerBeat := by
    intro before slot
    have hslot := tickAfter_append_le (by omega) htempo' (by omega) hticks' before [slot]
    rw [List.length_singleton] at hslot
    rw [maxDistance]
    omega
  obtain ⟨f, hf, -⟩ := exists_ofScore hvalid htempo ticksPerBeat
  have hnonneg : ∀ ms ∈ f.tracks, ∀ m ∈ ms, 0 ≤ m.delta :=
    (forall_delta_iff_of_ofScore hf (0 ≤ ·) le_rfl).mpr fun t ht m hm =>
      delta_nonneg_of_mem_ofTrack (hvalid t ht).notes hspeed hm
  have hfits : (∀ ms ∈ f.tracks, ∀ m ∈ ms, m.delta ≤ maxDistance) ↔
      ∀ p ∈ parts, SilencesWithin maxDistance s.tempo ticksPerBeat (p.2.played loops) :=
    (forall_delta_iff_of_ofScore hf (· ≤ maxDistance) hroom).trans
      (delta_le_iff_of_assemble h hspeed hshort hroom)
  refine ⟨f, hf, fun ms hms m hm => ?_, hfits, fun hrests => hfits.mpr fun p hp => ?_⟩
  · have hdelta := hnonneg ms hms m hm
    exact ⟨hdelta, le_maxDistance_iff hdelta⟩
  · exact (hrests p hp).silencesWithin (by omega) htempo' (by omega) hticks'

/-- The waiting part rests no longer than it waits. -/
theorem restsWithin_waiting (n : Nat) : RestsWithin n ((Part.waiting n).played 1) := by
  intro before rests after hsplit hrests
  let isRest : Slot → Bool := fun s => s.tokens = []
  have hwaiting : ((Part.waiting n).played 1).countP isRest = n := by
    simp [isRest, Part.played, Part.waiting, Slot.tokens, Sound.tokens, List.countP_replicate]
  have hcount : rests.countP isRest = rests.length :=
    List.countP_eq_length.mpr fun r hr => decide_eq_true (hrests r hr)
  rw [hsplit, List.countP_append, List.countP_append, hcount] at hwaiting
  omega

/-- The greatest number of half rests that fits whatever the tempo and the resolution, at the
fastest and the finest. -/
theorem delta_fits_iff_at_limit :
    ∃ e s f, assemble e 1 300 [("lead", .waiting 819)] = .ok s ∧ (20 : Int) ≤ 300 ∧
      (300 : Int) ≤ 300 ∧ (1 : Int) ≤ 0x7fff ∧ (0x7fff : Int) ≤ 0x7fff ∧
      ofScore 0x7fff s = .ok f ∧ RestsWithin 819 ((Part.waiting 819).played 1) ∧
      SilencesWithin maxDistance 300 0x7fff ((Part.waiting 819).played 1) ∧
      ∀ ms ∈ f.tracks, ∀ m ∈ ms, 0 ≤ m.delta ∧ m.delta ≤ maxDistance ∧
        (quantity m.delta.toNat).length ≤ 4 := by
  obtain ⟨e, -, hassemble⟩ := assemble_waiting 819
  obtain ⟨f, hf, hbytes, hfits, hrests⟩ :=
    delta_fits_iff hassemble (by decide) le_rfl (by decide) (le_refl (0x7fff : Int))
  have hparts : ∀ p ∈ [("lead", Part.waiting 819)], RestsWithin 819 (p.2.played 1) :=
    List.forall_mem_singleton.mpr (restsWithin_waiting 819)
  have hdeltas := hrests hparts
  refine ⟨e, _, f, hassemble, by decide, le_rfl, by decide, le_rfl, hf, restsWithin_waiting 819,
    hfits.mp hdeltas _ List.mem_cons_self, fun ms hms m hm => ?_⟩
  have hdelta := hdeltas ms hms m hm
  exact ⟨(hbytes ms hms m hm).1, hdelta, (hbytes ms hms m hm).2.mp hdelta⟩

/-- One more half rest, and the distance of the note behind it takes five bytes. Nothing stops the
file from being written all the same. -/
theorem delta_over_limit :
    ∃ (e : Ensemble) (s : Score) (f : File),
      Ensemble.ofList [⟨"piano", ⟨"keys", some 1, none⟩⟩] = .ok e ∧
      assemble e 1 300 [("lead", .waiting 820)] = .ok s ∧
      ofScore 0x7fff s = .ok f ∧ f.write.2 = none ∧
      ∃ ms ∈ f.tracks, ∃ m ∈ ms, m.message = .noteOn 0 60 defaultVelocity ∧
        m.delta = 268689400 ∧ maxDistance < m.delta ∧ (quantity m.delta.toNat).length = 5 := by
  obtain ⟨e, hlist, hassemble⟩ := assemble_waiting 820
  let start : Timed := ⟨268689400, .noteOn 0 60 defaultVelocity⟩
  let ms : List Timed := [⟨0, .trackName "piano"⟩, ⟨0, .programChange 0 0⟩, start,
    ⟨163835, .noteOff 0 60 0⟩, ⟨0, .endOfTrack⟩]
  have hfile : ofScore 0x7fff ⟨300, [⟨"piano", 0, some 0, [⟨60, (820 : Nat) * 2, 1⟩]⟩]⟩
      = .ok ⟨0x7fff, [tempoTrack 200000, ms]⟩ := by cbv
  have hwrite : (File.write ⟨0x7fff, [tempoTrack 200000, ms]⟩).2 = none := by cbv
  have hstart : start ∈ ms := by simp [ms]
  have hbytes : (quantity start.delta.toNat).length = 5 := by cbv
  exact ⟨e, _, _, hlist, hassemble, hfile, hwrite, ms, by simp, start, hstart, rfl, rfl,
    by decide, hbytes⟩

end Ostinato.Midi

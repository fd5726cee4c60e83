import Mathlib
import Ostinato.Proofs.Score.Assembly
import Ostinato.Proofs.Score.Duration
import Ostinato.Score.Edit

/-!
# Scores built by hand

An edit in range adds one track or one note at the end and leaves the rest alone; any other leaves
everything alone. `account_tryEdits` follows runs of edits of which some are refused: the score
stays valid, and its totals are those of the notes that the run has added so far.
-/

namespace Ostinato

/-- An edit whose numbers are in range. -/
def Edit.InRange : Edit → Prop
  | .track _ channel program => 0 ≤ channel ∧ channel ≤ 15 ∧ ∀ p ∈ program, 0 ≤ p ∧ p ≤ 127
  | .note _ pitch time duration => 0 ≤ pitch ∧ pitch ≤ 127 ∧ 0 ≤ time ∧ 0 < duration

/-- An edit of a track that a score has, or one that adds a track. -/
def Edit.Reaches (s : Score) : Edit → Prop
  | .track .. => True
  | .note k _ _ _ => k < s.tracks.length

namespace Score

/-- The second score is the first with one track or one note more, at the end, and nothing else is
changed. -/
def Appends (s : Score) (e : Edit) (s' : Score) : Prop :=
  s'.tempo = s.tempo ∧
  match e with
  | .track name channel program => s'.tracks = s.tracks ++ [⟨name, channel, program, []⟩]
  | .note track pitch time duration =>
    s'.tracks.length = s.tracks.length ∧
      (∃ t, s.tracks[track]? = some t ∧
        s'.tracks[track]? = some { t with notes := t.notes ++ [⟨pitch, time, duration⟩] }) ∧
      ∀ other ≠ track, s'.tracks[other]? = s.tracks[other]?

/-- The note that an edit adds to a score, if it adds one. -/
def noteAdded? (s : Score) : Edit → Option NoteEvent
  | .track .. => none
  | .note track pitch time duration =>
    match s.edit (.note track pitch time duration) with
    | .ok _ => some ⟨pitch, time, duration⟩
    | .error _ => none

/-- The notes that a run of edits adds, in the order of the edits. -/
def notesAdded (s : Score) : List Edit → List NoteEvent
  | [] => []
  | e :: es => (s.noteAdded? e).toList ++ (s.tryEdit e).notesAdded es

/-- A score with what an edit asks for, without any check. -/
def extend (s : Score) : Edit → Score
  | .track name channel program => s.add ⟨name, channel, program, []⟩
  | .note track pitch time duration => s.addNote track ⟨pitch, time, duration⟩

end Score

variable {s s' : Score} {e : Edit}

/-! ## When an edit is made -/

/-- A made note is what was asked for, and its numbers are in range. -/
theorem NoteEvent.make_eq_ok_iff {pitch : Int} {time duration : Rat} {n : NoteEvent} :
    NoteEvent.make pitch time duration = .ok n ↔
      (0 ≤ pitch ∧ pitch ≤ maxData ∧ 0 ≤ time ∧ 0 < duration) ∧ n = ⟨pitch, time, duration⟩ := by
  rw [NoteEvent.make]
  split_ifs with hpitch htime hduration
  · simp only [false_iff]
    rintro ⟨⟨hge, hle, -⟩, -⟩
    omega
  · simp only [false_iff]
    rintro ⟨⟨-, -, hge, -⟩, -⟩
    exact hge.not_gt htime
  · simp only [false_iff]
    rintro ⟨⟨-, -, -, hpos⟩, -⟩
    exact hpos.not_ge hduration
  · have hrange : 0 ≤ pitch ∧ pitch ≤ maxData ∧ 0 ≤ time ∧ 0 < duration :=
      ⟨by omega, by omega, not_lt.mp htime, not_le.mp hduration⟩
    simp only [hrange, and_self, true_and, Except.ok.injEq, eq_comm]

/-- An edit is made exactly if its track is there and its numbers are in range. -/
theorem edit_eq_ok_iff :
    s.edit e = .ok s' ↔ (e.Reaches s ∧ e.InRange) ∧ s' = s.extend e := by
  constructor
  · intro h
    cases e with
    | track name channel program =>
      rw [Score.edit] at h
      split at h
      next => cases h
      next t hmake =>
        obtain ⟨hrange, rfl⟩ := Track.make_eq_ok_iff.mp hmake
        cases h
        exact ⟨⟨trivial, hrange⟩, rfl⟩
    | note track pitch time duration =>
      rw [Score.edit] at h
      split_ifs at h with hmissing
      split at h
      next => cases h
      next n hmake =>
        obtain ⟨hrange, rfl⟩ := NoteEvent.make_eq_ok_iff.mp hmake
        cases h
        exact ⟨⟨not_le.mp hmissing, hrange⟩, rfl⟩
  · rintro ⟨⟨hreaches, hrange⟩, rfl⟩
    cases e with
    | track name channel program =>
      have hmake : Track.make name channel program = .ok ⟨name, channel, program, []⟩ :=
        Track.make_eq_ok_iff.mpr ⟨hrange, rfl⟩
      rw [Score.edit, hmake]
      rfl
    | note track pitch time duration =>
      have hmake : NoteEvent.make pitch time duration = .ok ⟨pitch, time, duration⟩ :=
        NoteEvent.make_eq_ok_iff.mpr ⟨hrange, rfl⟩
      rw [Score.edit, if_neg (not_le.mpr hreaches), hmake]
      rfl

/-- An edit fails just if it reaches no track or its arguments are out of range. -/
theorem edit_eq_error_iff :
    (∃ fault, s.edit e = .error fault) ↔ ¬ (e.Reaches s ∧ e.InRange) := by
  cases h : s.edit e with
  | ok s' => simp [(edit_eq_ok_iff.mp h).1]
  | error fault =>
    have hrefused : ¬ (e.Reaches s ∧ e.InRange) := by
      intro hallowed
      rw [edit_eq_ok_iff.mpr ⟨hallowed, rfl⟩] at h
      cases h
    simp [hrefused]

/-- An edit that fails leaves the score. -/
theorem tryEdit_of_error {fault : EditFault} (h : s.edit e = .error fault) : s.tryEdit e = s := by
  rw [Score.tryEdit, h]

/-- An edit that succeeds is made. -/
theorem tryEdit_of_ok (h : s.edit e = .ok s') : s.tryEdit e = s' := by
  rw [Score.tryEdit, h]

/-! ## What an edit leaves -/

/-- A note goes to the end of its track, and the other tracks stay. -/
theorem appends_of_edit (h : s.edit e = .ok s') : s.Appends e s' := by
  obtain ⟨⟨hreaches, -⟩, rfl⟩ := edit_eq_ok_iff.mp h
  refine ⟨by cases e <;> rfl, ?_⟩
  cases e with
  | track name channel program => rfl
  | note track pitch time duration =>
    refine ⟨List.length_modify _ _ _, ⟨_, List.getElem?_eq_getElem hreaches, ?_⟩, ?_⟩
    · simp [Score.extend, Score.addNote, Track.add, List.getElem?_eq_getElem hreaches]
    · intro other hother
      simp [Score.extend, Score.addNote, hother.symm]

/-- A note on one track is one more note of the score. -/
theorem notes_addNote_perm (n : NoteEvent) {track : Nat} (h : track < s.tracks.length) :
    (s.addNote track n).notes.Perm (s.notes ++ [n]) := by
  obtain ⟨before, t, after, htracks, -, hmodified⟩ := List.exists_of_modify (·.add n) h
  simp only [Score.notes, Score.addNote, hmodified]
  rw [htracks]
  simp only [List.flatMap_append, List.flatMap_cons, Track.add, List.append_assoc]
  exact (List.perm_append_comm.append_left _).append_left _

/-- The notes after an edit are those before it and the one that it adds, if it adds one. -/
theorem notes_tryEdit_perm (s : Score) (e : Edit) :
    (s.tryEdit e).notes.Perm (s.notes ++ (s.noteAdded? e).toList) := by
  cases h : s.edit e with
  | error fault =>
    rw [tryEdit_of_error h]
    cases e <;> simp [Score.noteAdded?, h]
  | ok s' =>
    obtain ⟨⟨hreaches, -⟩, rfl⟩ := edit_eq_ok_iff.mp h
    rw [tryEdit_of_ok h]
    cases e with
    | track name channel program =>
      simp [Score.noteAdded?, Score.extend, Score.add, Score.notes]
    | note track pitch time duration =>
      simp only [Score.noteAdded?, h]
      exact notes_addNote_perm _ hreaches

/-- What is out of range never gets into a score. -/
theorem valid_tryEdit (hs : s.Valid) (e : Edit) : (s.tryEdit e).Valid := by
  cases h : s.edit e with
  | error fault => rwa [tryEdit_of_error h]
  | ok s' =>
    obtain ⟨⟨hreaches, hrange⟩, rfl⟩ := edit_eq_ok_iff.mp h
    rw [tryEdit_of_ok h]
    intro t ht
    cases e with
    | track name channel program =>
      obtain ⟨hge, hle, hprogram⟩ := hrange
      rcases List.mem_append.mp ht with ht | ht
      · exact hs t ht
      · rw [List.mem_singleton.mp ht]
        exact ⟨hge, hle, fun p hp => (hprogram p hp).1, fun p hp => (hprogram p hp).2,
          fun n hn => absurd hn List.not_mem_nil⟩
    | note track pitch time duration =>
      obtain ⟨hge, hle, htime, hduration⟩ := hrange
      obtain ⟨before, t₀, after, htracks, -, hmodified⟩ :=
        List.exists_of_modify (·.add ⟨pitch, time, duration⟩) hreaches
      have hmem : ∀ t' ∈ before ++ t₀ :: after, t'.Valid := fun t' ht' => hs t' (htracks ▸ ht')
      simp only [Score.extend, Score.addNote, hmodified] at ht
      rcases List.mem_append.mp ht with ht | ht
      · exact hmem t (List.mem_append_left _ ht)
      · rcases List.mem_cons.mp ht with rfl | ht
        · have ht₀ := hmem t₀ (by simp)
          refine ⟨ht₀.channel_nonneg, ht₀.channel_le, ht₀.program_nonneg, ht₀.program_le,
            List.forall_mem_append.mpr ⟨ht₀.notes, List.forall_mem_singleton.mpr ?_⟩⟩
          exact ⟨hge, hle, htime, hduration⟩
        · exact hmem t (List.mem_append_right _ (List.mem_cons_of_mem t₀ ht))

/-! ## Runs of edits -/

/-- Edits are tried one after the other. -/
theorem tryEdits_cons (s : Score) (e : Edit) (es : List Edit) :
    s.tryEdits (e :: es) = (s.tryEdit e).tryEdits es := rfl

/-- Whatever edits are tried, a valid score stays valid. -/
theorem valid_tryEdits (hs : s.Valid) (es : List Edit) : (s.tryEdits es).Valid := by
  induction es generalizing s with
  | nil => exact hs
  | cons e es ih => exact ih (valid_tryEdit hs e)

/-- After a run the notes are those that were there and those that the run has added. -/
theorem notes_tryEdits_perm (s : Score) (es : List Edit) :
    (s.tryEdits es).notes.Perm (s.notes ++ s.notesAdded es) := by
  induction es generalizing s with
  | nil => simp [Score.tryEdits, Score.notesAdded]
  | cons e es ih =>
    rw [tryEdits_cons, Score.notesAdded, ← List.append_assoc]
    exact (ih (s.tryEdit e)).trans ((notes_tryEdit_perm s e).append_right _)

/-- The notes of a valid score are valid. -/
theorem valid_of_mem_notes (hs : s.Valid) {n : NoteEvent} (hn : n ∈ s.notes) : n.Valid := by
  obtain ⟨t, ht, hn⟩ := List.mem_flatMap.mp hn
  exact (hs t ht).notes n hn

/-- An edit never makes a valid score shorter. -/
theorem duration_le_tryEdit (hs : s.Valid) (e : Edit) :
    s.duration ≤ (s.tryEdit e).duration := by
  refine s.isLatest_duration.mono (s.tryEdit e).isLatest_duration ?_
    fun n hn => (valid_of_mem_notes (valid_tryEdit hs e) hn).stop_nonneg
  intro n hn
  exact (notes_tryEdit_perm s e).mem_iff.mpr (List.mem_append_left _ hn)

/-- The account of a score that is built up from nothing. After any run of edits, some of them
refused, the score is valid. The next edit of a track that is there is refused exactly if its own
numbers are out of range, and then nothing changes; else it adds one track or one note at the end,
and nothing else changes. There are as many notes as the run has added, and the score lasts until
the latest of their ends; so it never gets shorter. -/
theorem account_tryEdits (tempo : Int) (es : List Edit) (e : Edit) :
    let s := (Score.empty tempo).tryEdits es
    let added := (Score.empty tempo).notesAdded es
    s.Valid ∧
    (e.Reaches s → ((∃ fault, s.edit e = .error fault) ↔ ¬ e.InRange)) ∧
    (∀ fault, s.edit e = .error fault → s.tryEdit e = s) ∧
    (∀ s', s.edit e = .ok s' → s.tryEdit e = s' ∧ s.Appends e s') ∧
    s.totalEvents = added.length ∧
    IsLatest added s.duration ∧
    s.duration ≤ (s.tryEdit e).duration := by
  intro s added
  have hempty : (Score.empty tempo).Valid := fun t ht => absurd ht List.not_mem_nil
  have hvalid : s.Valid := valid_tryEdits hempty es
  have hnotes : s.notes.Perm added := notes_tryEdits_perm (Score.empty tempo) es
  refine ⟨hvalid, fun hreaches => ?refused, fun fault => tryEdit_of_error,
    fun s' h => ⟨tryEdit_of_ok h, appends_of_edit h⟩, hnotes.length_eq,
    s.isLatest_duration.of_perm hnotes, duration_le_tryEdit hvalid e⟩
  case refused =>
    rw [edit_eq_error_iff, and_iff_right hreaches]

/-- A run in which a program and a pitch out of range are refused in between, and a note that ends
first is added last. -/
theorem account_tryEdits_of_mixed_run :
    let es : List Edit := [.track "oud" 15 (some 127), .track "bad" 0 (some 128),
      .note 0 127 1 (3 / 2), .note 0 128 7 1, .note 0 0 0 (1 / 4)]
    let s := (Score.empty 120).tryEdits es
    let e := Edit.note 0 60 0 0
    e.Reaches s ∧ (∃ fault, s.edit e = .error fault) ∧ s.tryEdit e = s ∧
      (Score.empty 120).notesAdded es = [⟨127, 1, 3 / 2⟩, ⟨0, 0, 1 / 4⟩] ∧ s.totalEvents = 2 ∧
      IsLatest [⟨127, 1, 3 / 2⟩, ⟨0, 0, 1 / 4⟩] s.duration := by
  intro es s e
  have hadded : (Score.empty 120).notesAdded es = [⟨127, 1, 3 / 2⟩, ⟨0, 0, 1 / 4⟩] := by cbv
  have hreaches : e.Reaches s := by
    change 0 < s.tracks.length
    have hlength : ((Score.empty 120).tryEdits es).tracks.length = 1 := by cbv
    exact hlength ▸ Nat.one_pos
  obtain ⟨-, hrefused, hunchanged, -, htotal, hlatest, -⟩ := account_tryEdits 120 es e
  obtain ⟨fault, hfault⟩ := (hrefused hreaches).mpr fun h => h.2.2.2.false
  rw [hadded] at htotal hlatest
  exact ⟨hreaches, ⟨fault, hfault⟩, hunchanged fault hfault, hadded, htotal, hlatest⟩

end Ostinato

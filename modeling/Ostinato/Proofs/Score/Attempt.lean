import Ostinato.Proofs.Score.Allocation
import Ostinato.Proofs.Score.Failure
import Ostinato.Proofs.Score.Layout

/-!
# What an attempt to add a part leaves

A part gets its seat before its notes are laid out, so a part that fails can leave a track behind.
`attempt_addPart` lists how an attempt can end, for any counter, and what is left each time. The
main result, `addPart_all_or_nothing`, is that such a track has no notes at all, wherever in the
part the fault is, that any other fault leaves nothing, and that the tracks which were there are
never touched, neither by one attempt nor by a run of them.
-/

namespace Ostinato

/-- The channel and the program, from 0, of an instrument that finds a counter. -/
def Instrument.seatAt (i : Instrument) (counter : Int) : Int × Option Int :=
  match i.definition.pitchMap, i.definition.program with
  | some _, _ => (9, none)
  | none, some program => (if counter = 9 then 10 else counter, some (program - 1))
  | none, none => (0, none)

/-- The track of an instrument that finds a counter. -/
def Instrument.trackAt (i : Instrument) (counter : Int) (notes : List NoteEvent) : Track :=
  ⟨i.name, (i.seatAt counter).1, (i.seatAt counter).2, notes⟩

namespace Assembly

/-- The faults of a part that gets no seat: no instrument has its type, the seat of the instrument
is past the last channel, or the counter, which would be its channel, is below the first one. -/
inductive Unseated (e : Ensemble) (a : Assembly) (source : String) (part : Part) : PartFault → Prop
  | unresolved (hnone : e.findByType part.instrument = none) :
      Unseated e a source part (.unresolved part.instrument source)
  | exhausted {i : Instrument} (hi : e.findByType part.instrument = some i)
      (hfull : maxChannel < (i.seatAt a.counter).1) :
      Unseated e a source part (.exhausted ⟨(i.seatAt a.counter).1⟩)
  | negative {i : Instrument} (hi : e.findByType part.instrument = some i)
      (hseat : (i.seatAt a.counter).1 = a.counter) (hneg : a.counter < 0) :
      Unseated e a source part (.range (.channel a.counter))

/-- How an attempt to add a part can end, and the assembly that it leaves. -/
inductive Attempt (e : Ensemble) (loops : Int) (a : Assembly) (source : String) (part : Part) :
    Except PartFault Track × Assembly → Prop
  | unseated {fault : PartFault} (hfault : Unseated e a source part fault) :
      Attempt e loops a source part (.error fault, a)
  | unplayed {i : Instrument} {fault : NoteFault} (hi : e.findByType part.instrument = some i)
      (hnotes : timeline i part.slots loops = .error fault) :
      Attempt e loops a source part
        (.error (.note fault), ⟨a.score.add (i.trackAt a.counter []), a.counter⟩)
  | played {i : Instrument} {notes : List NoteEvent} {counter : Int}
      (hi : e.findByType part.instrument = some i)
      (hnotes : timeline i part.slots loops = .ok notes) :
      Attempt e loops a source part
        (.ok (i.trackAt a.counter notes), ⟨a.score.add (i.trackAt a.counter notes), counter⟩)

/-- The assembly after attempts to add parts, none of which is given up for the fault of another. -/
def attemptAll (e : Ensemble) (loops : Int) (a : Assembly) (parts : List (String × Part)) :
    Assembly :=
  parts.foldl (fun a p => (a.addPart e loops p.1 p.2).2) a

end Assembly

variable {e : Ensemble} {i : Instrument} {loops : Int} {a : Assembly} {source : String}
  {part : Part}

/-! ## Seats -/

/-- An instrument is given its seat, unless the seat is past the last channel. -/
theorem allocate_seatAt (i : Instrument) (counter : Int) :
    maxChannel < (i.seatAt counter).1 ∧ allocate i counter = .error ⟨(i.seatAt counter).1⟩ ∨
      (i.seatAt counter).1 ≤ maxChannel ∧
        ∃ assignment next, allocate i counter = .ok (assignment, next) ∧
          Assembly.seat i assignment
            = Track.make i.name (i.seatAt counter).1 (i.seatAt counter).2 := by
  unfold Instrument.seatAt
  cases hmap : i.definition.pitchMap with
  | some table =>
    have hroom : (9 : Int) ≤ maxChannel := by decide
    exact .inr ⟨hroom, _, _, allocate_of_percussion (by simp [hmap]) counter, rfl⟩
  | none =>
    cases hprogram : i.definition.program with
    | none =>
      have hroom : (0 : Int) ≤ maxChannel := by decide
      exact .inr ⟨hroom, _, _, allocate_of_no_program hmap hprogram counter, rfl⟩
    | some program =>
      have hchannel : (if counter = drumChannel then counter + 1 else counter)
          = if counter = 9 then 10 else counter := by
        unfold drumChannel
        split_ifs <;> omega
      have hallocate : allocate i counter
          = if maxChannel < (if counter = 9 then 10 else counter)
              then .error ⟨if counter = 9 then 10 else counter⟩
              else .ok (some ⟨if counter = 9 then 10 else counter, some (program - 1)⟩,
                (if counter = 9 then 10 else counter) + 1) := by
        simp only [allocate, Instrument.isPercussion_eq, Instrument.program, hmap, hprogram,
          Option.isSome_none, Bool.false_eq_true, if_false, hchannel]
      by_cases hfull : maxChannel < (if counter = 9 then 10 else counter)
      · rw [if_pos hfull] at hallocate
        exact .inl ⟨hfull, hallocate⟩
      · rw [if_neg hfull] at hallocate
        exact .inr ⟨not_lt.mp hfull, _, _, hallocate, rfl⟩

/-- A seat up to the last channel is in range, unless the counter stands below the first one. -/
theorem make_seatAt (hi : i.definition.Valid) {counter : Int}
    (hle : (i.seatAt counter).1 ≤ maxChannel) :
    Track.make i.name (i.seatAt counter).1 (i.seatAt counter).2 = .ok (i.trackAt counter []) ∨
      (i.seatAt counter).1 = counter ∧ counter < 0 ∧
        Track.make i.name (i.seatAt counter).1 (i.seatAt counter).2
          = .error (.channel counter) := by
  by_cases hnonneg : 0 ≤ (i.seatAt counter).1
  · left
    rw [Track.make_eq_ok_iff]
    refine ⟨⟨hnonneg, hle, fun p hp => ?_⟩, rfl⟩
    unfold Instrument.seatAt at hp
    cases hmap : i.definition.pitchMap <;> cases hprogram : i.definition.program <;>
      simp only [hmap, hprogram, Option.mem_def, Option.some.injEq, reduceCtorEq] at hp
    -- the program was from 1 to 128 and is counted from 0 now
    have hge := hi.program_ge _ hprogram
    have hle' := hi.program_le _ hprogram
    unfold maxData
    omega
  · right
    have hcounter : (i.seatAt counter).1 = counter := by
      unfold Instrument.seatAt at hnonneg ⊢
      cases hmap : i.definition.pitchMap <;> cases hprogram : i.definition.program <;>
        simp only [hmap, hprogram] at hnonneg ⊢
      · exact absurd le_rfl hnonneg
      · split_ifs at hnonneg ⊢ with hdrum
        · exact absurd (by decide) hnonneg
        · rfl
      · exact absurd (by decide) hnonneg
      · exact absurd (by decide) hnonneg
    rw [hcounter] at hnonneg
    have hneg := not_le.mp hnonneg
    refine ⟨hcounter, hneg, ?_⟩
    rw [hcounter]
    unfold Track.make
    exact if_pos (.inl hneg)

/-! ## One attempt -/

/-- An attempt ends in one of the ways listed. -/
theorem attempt_addPart (he : e.Valid) (loops : Int) (a : Assembly) (source : String)
    (part : Part) : Assembly.Attempt e loops a source part (a.addPart e loops source part) := by
  simp only [Assembly.addPart]
  cases hi : e.findByType part.instrument with
  | none => exact .unseated (.unresolved hi)
  | some i =>
    obtain ⟨hfull, hallocate⟩ | ⟨hle, assignment, next, hallocate, hseat⟩ :=
      allocate_seatAt i a.counter
    · simp only [hallocate]
      exact .unseated (.exhausted hi hfull)
    · simp only [hallocate, hseat]
      obtain hmake | ⟨hcounter, hneg, hmake⟩ := make_seatAt (he _ i hi) hle
      · simp only [hmake]
        cases hnotes : timeline i part.slots loops with
        | error fault => exact .unplayed hi hnotes
        | ok notes => exact .played hi hnotes
      · simp only [hmake]
        exact .unseated (.negative hi hcounter hneg)

/-- However an attempt ends, there is one track more at most, and it has all its notes or none. -/
theorem tracks_of_attempt {r : Except PartFault Track × Assembly}
    (h : Assembly.Attempt e loops a source part r) :
    r.2.score.tracks = a.score.tracks ∨
      ∃ i t, e.findByType part.instrument = some i ∧ t.name = i.name ∧
        (t.notes = [] ∨ timeline i part.slots loops = .ok t.notes) ∧
        r.2.score.tracks = a.score.tracks ++ [t] := by
  cases h with
  | unseated => exact .inl rfl
  | @unplayed i fault hi hnotes =>
    exact .inr ⟨i, i.trackAt a.counter [], hi, rfl, .inl rfl, rfl⟩
  | @played i notes counter hi hnotes =>
    exact .inr ⟨i, i.trackAt a.counter notes, hi, rfl, .inr hnotes, rfl⟩

/-! ## Runs of attempts -/

/-- A run of attempts leaves the tracks that were there, and behind them at most one for each part,
with all notes of the part or none. -/
theorem tracks_attemptAll (he : e.Valid) (loops : Int) (a : Assembly)
    (parts : List (String × Part)) :
    ∃ more, (a.attemptAll e loops parts).score.tracks = a.score.tracks ++ more ∧
      more.length ≤ parts.length ∧
      ∀ t ∈ more, ∃ p ∈ parts, ∃ i, e.findByType p.2.instrument = some i ∧ t.name = i.name ∧
        (t.notes = [] ∨ timeline i p.2.slots loops = .ok t.notes) := by
  induction parts generalizing a with
  | nil => exact ⟨[], by simp [Assembly.attemptAll], le_rfl, by simp⟩
  | cons p parts ih =>
    obtain ⟨more, hmore, hlength, hnotes⟩ := ih (a.addPart e loops p.1 p.2).2
    have hrun : (a.attemptAll e loops (p :: parts)).score.tracks
        = (a.addPart e loops p.1 p.2).2.score.tracks ++ more := hmore
    have hlater : ∀ t ∈ more, ∃ p' ∈ p :: parts, ∃ i, e.findByType p'.2.instrument = some i ∧
        t.name = i.name ∧ (t.notes = [] ∨ timeline i p'.2.slots loops = .ok t.notes) := by
      intro t ht
      obtain ⟨p', hp', hfrom⟩ := hnotes t ht
      exact ⟨p', List.mem_cons_of_mem p hp', hfrom⟩
    rcases tracks_of_attempt (attempt_addPart he loops a p.1 p.2) with
      hsame | ⟨i, t, hi, hname, hall, htracks⟩
    · exact ⟨more, by rw [hrun, hsame], Nat.le_succ_of_le hlength, hlater⟩
    · refine ⟨t :: more, by rw [hrun, htracks, List.append_assoc, List.singleton_append],
        Nat.succ_le_succ hlength, fun t' ht' => ?_⟩
      rcases List.mem_cons.mp ht' with rfl | ht'
      · exact ⟨p, List.mem_cons_self, i, hi, hname, hall⟩
      · exact hlater t' ht'

/-- What an attempt to add a part leaves of any score, at any counter, if the definitions of the
instruments have passed their check. One that fails does not move the counter. If the part has got
no seat, nothing has changed at all; else the fault is that of its first slot which cannot be
played, wherever this slot stands and whichever of its tokens is to blame, and there is one track
more, at the end, with the name and the seat of the instrument and not a single note. One that
succeeds adds one track at the end, with the notes of all slots in all passes. So the tracks of a
score stay as they are through any run of attempts, and each part adds at most one track, with all
its notes or none. -/
theorem addPart_all_or_nothing {is : List Instrument} (hensemble : Ensemble.ofList is = .ok e)
    (hdefinitions : ∀ i ∈ is, ∃ pool v, Definition.ofValue pool v = .ok i.definition)
    (loops : Int) (a : Assembly) (source : String) (part : Part) :
    (∀ fault a', a.addPart e loops source part = (.error fault, a') →
      a.score.tracks <+: a'.score.tracks ∧ a'.counter = a.counter ∧
      (Assembly.Unseated e a source part fault ∧ a' = a ∨
        ∃ i noteFault before s after, fault = .note noteFault ∧
          e.findByType part.instrument = some i ∧ part.slots = before ++ s :: after ∧
          (∀ s' ∈ before, s'.Playable i) ∧ s.Blames i noteFault ∧
          a'.score = a.score.add
            ⟨i.name, (i.seatAt a.counter).1, (i.seatAt a.counter).2, []⟩)) ∧
    (∀ t a', a.addPart e loops source part = (.ok t, a') →
      ∃ i, e.findByType part.instrument = some i ∧ a'.score = a.score.add t ∧
        t.name = i.name ∧ (t.channel, t.program) = i.seatAt a.counter ∧
        t.notes = (List.range loops.toNat).flatMap fun pass =>
          part.slots.zipIdx.flatMap fun p => i.strike p.1 (slotStart part.slots pass p.2)) ∧
    ∀ parts, ∃ more, (a.attemptAll e loops parts).score.tracks = a.score.tracks ++ more ∧
      more.length ≤ parts.length ∧
      ∀ t ∈ more, ∃ p ∈ parts, ∃ i, e.findByType p.2.instrument = some i ∧ t.name = i.name ∧
        (t.notes = [] ∨ timeline i p.2.slots loops = .ok t.notes) := by
  have hholds := (Ensemble.holds_of_ofList hensemble).1
  have hvalid : e.Valid := hholds.valid fun i hi =>
    have ⟨_, _, h⟩ := hdefinitions i hi
    Definition.valid_of_ofValue h
  have hattempt := attempt_addPart hvalid loops a source part
  refine ⟨fun fault a' hadd => ?failure, fun t a' hadd => ?success,
    tracks_attemptAll hvalid loops a⟩
  case failure =>
    rw [hadd] at hattempt
    cases hattempt with
    | unseated hfault => exact ⟨List.prefix_rfl, rfl, .inl ⟨hfault, rfl⟩⟩
    | @unplayed i noteFault hi hnotes =>
      have hslots := mapM_of_timeline_error hnotes
      obtain ⟨before, s, after, hparts, hbefore, hs⟩ := mapM_eq_error_iff.mp hslots
      refine ⟨List.prefix_append _ _, rfl, .inr ⟨i, noteFault, before, s, after, rfl, hi, hparts,
        fun s' hs' => ?_, ?_, rfl⟩⟩
      · exact (Beat.exists_ofSlot_iff (hvalid _ i hi)).mp (hbefore s' hs')
      · exact (Beat.ofSlot_eq_error_iff (hvalid _ i hi)).mp hs
  case success =>
    rw [hadd] at hattempt
    cases hattempt with
    | @played i notes counter hi hnotes =>
      exact ⟨i, hi, rfl, rfl, rfl, timeline_eq_flatMap hnotes⟩

/-- A chord with an unknown token behind a slot that can be played, in each of three passes, for an
instrument that finds the counter at the drum channel. -/
theorem addPart_all_or_nothing_in_chord :
    let piano : Instrument := ⟨"piano", ⟨"keys", some 1, none⟩⟩
    let oud : Track := ⟨"oud", 8, some 105, [⟨60, 0, 1⟩]⟩
    let part : Part := ⟨"keys", [⟨"4", .single "c4"⟩, ⟨"8", .chord ["e4", "h4", "g4"]⟩]⟩
    ∃ e a', Ensemble.ofList [piano] = .ok e ∧
      Definition.ofValue .empty (.dict [(.text "type", .text "keys"), (.text "program", .int 1)])
        = .ok piano.definition ∧
      (⟨⟨120, [oud]⟩, 9⟩ : Assembly).addPart e 3 "a.yaml" part
        = (.error (.note (.pitch ⟨"h4", some "keys"⟩)), a') ∧
      a'.counter = 9 ∧ a'.score.tracks = [oud, ⟨"piano", 10, some 0, []⟩] := by
  intro piano oud part
  have hensemble : Ensemble.ofList [piano] = .ok ⟨[piano], [("keys", piano)]⟩ := by cbv
  have hdefinition : Definition.ofValue .empty
      (.dict [(.text "type", .text "keys"), (.text "program", .int 1)])
        = .ok piano.definition := by cbv
  have hadd : ((⟨⟨120, [oud]⟩, 9⟩ : Assembly).addPart ⟨[piano], [("keys", piano)]⟩ 3 "a.yaml"
      part).1 = .error (.note (.pitch ⟨"h4", some "keys"⟩)) := by cbv
  obtain ⟨hfailure, -, -⟩ := addPart_all_or_nothing hensemble
    (fun i hi => ⟨_, _, List.mem_singleton.mp hi ▸ hdefinition⟩) 3 ⟨⟨120, [oud]⟩, 9⟩ "a.yaml" part
  obtain ⟨-, hcounter, ⟨hunseated, -⟩ | ⟨i, noteFault, -, -, -, -, hi, -, -, -, hscore⟩⟩ :=
    hfailure _ _ (Prod.ext hadd rfl)
  · cases hunseated
  · have hpiano : Ensemble.findByType ⟨[piano], [("keys", piano)]⟩ part.instrument
        = some piano := by cbv
    rw [hpiano] at hi
    cases hi
    exact ⟨_, _, hensemble, hdefinition, Prod.ext hadd rfl, hcounter, congrArg Score.tracks hscore⟩

end Ostinato

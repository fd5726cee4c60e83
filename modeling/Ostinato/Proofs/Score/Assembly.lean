import Mathlib.Algebra.Order.Group.Int
import Ostinato.Proofs.Outcome
import Ostinato.Proofs.Score.Channel

/-!
# Scores by position

What a part becomes depends on the parts before it only through the number of channels that they
took. `trackAfter` says what it becomes without any running state, `tracksAfter` goes through a list
of parts, and `assemble_eq` says that assembling a score is just that. The main result,
`assemble_by_position`, reads off each track of a score and says when the channels run out.
-/

namespace Ostinato

/-- Whether the instrument that plays a part takes a channel. -/
def Ensemble.takesChannel (e : Ensemble) (part : Part) : Bool :=
  (e.findByType part.instrument).any Instrument.takesChannel

/-- How many of some parts take a channel. -/
def Ensemble.taken (e : Ensemble) (parts : List (String × Part)) : Nat :=
  parts.countP fun p => e.takesChannel p.2

/-- The track of a part that comes when `taken` channels are taken. -/
def trackAfter (e : Ensemble) (loops : Int) (taken : Nat) (source : String) (part : Part) :
    Except PartFault Track :=
  match e.findByType part.instrument with
  | none => .error (.unresolved part.instrument source)
  | some i =>
    if i.takesChannel ∧ 15 ≤ taken then .error (.exhausted ⟨melodicChannel taken⟩)
    else
      match Track.make i.name (i.seatAfter taken).1 (i.seatAfter taken).2 with
      | .error fault => .error (.range fault)
      | .ok t =>
        match timeline i part.slots loops with
        | .error fault => .error (.note fault)
        | .ok notes => .ok { t with notes }

/-- The tracks of parts that come when `taken` channels are taken. -/
def tracksAfter (e : Ensemble) (loops : Int) :
    Nat → List (String × Part) → Except PartFault (List Track)
  | _, [] => .ok []
  | taken, (source, part) :: rest =>
    match trackAfter e loops taken source part with
    | .error fault => .error fault
    | .ok t =>
      (tracksAfter e loops (taken + if e.takesChannel part then 1 else 0) rest).map (t :: ·)

variable {e : Ensemble} {loops : Int}

/-! ## One part -/

/-- A made track is what was asked for, and its numbers are in range. -/
theorem Track.make_eq_ok_iff {name : String} {channel : Int} {program : Option Int} {t : Track} :
    Track.make name channel program = .ok t ↔
      (0 ≤ channel ∧ channel ≤ maxChannel ∧ ∀ p ∈ program, 0 ≤ p ∧ p ≤ maxData) ∧
        t = ⟨name, channel, program, []⟩ := by
  cases program with
  | none =>
    simp only [Track.make]
    split_ifs with hchannel
    · simp only [false_iff]
      rintro ⟨⟨h₀, h₁, -⟩, -⟩
      omega
    · simp only [Except.ok.injEq, eq_comm (a := t), reduceCtorEq, Option.mem_def, false_implies,
        implies_true, and_true]
      exact ⟨fun h => ⟨by omega, h⟩, fun h => h.2⟩
  | some p =>
    simp only [Track.make, Option.mem_def, Option.some.injEq, forall_eq']
    split_ifs with hchannel hprogram
    · simp only [false_iff]
      rintro ⟨⟨h₀, h₁, -⟩, -⟩
      omega
    · simp only [false_iff]
      rintro ⟨⟨-, -, h₀, h₁⟩, -⟩
      omega
    · simp only [Except.ok.injEq, eq_comm (a := t)]
      exact ⟨fun h => ⟨by omega, h⟩, fun h => h.2⟩

/-- What is known of a track that a part became. -/
theorem trackAfter_eq_ok {taken : Nat} {source : String} {part : Part} {t : Track}
    (h : trackAfter e loops taken source part = .ok t) :
    ∃ i, e.findByType part.instrument = some i ∧ ¬ (i.takesChannel = true ∧ 15 ≤ taken) ∧
      t.name = i.name ∧ (t.channel, t.program) = i.seatAfter taken ∧
      timeline i part.slots loops = .ok t.notes := by
  simp only [trackAfter] at h
  split at h
  next => cases h
  next i hi =>
    split_ifs at h with hfull
    split at h
    next => cases h
    next made hmade =>
      obtain ⟨-, rfl⟩ := Track.make_eq_ok_iff.mp hmade
      split at h
      next => cases h
      next notes hnotes =>
        cases h
        exact ⟨i, hi, hfull, rfl, rfl, hnotes⟩

/-- The channels run out at a part exactly if its instrument asks for the sixteenth channel or a
later one. -/
theorem trackAfter_eq_exhausted_iff {taken : Nat} {source : String} {part : Part}
    {fault : ChannelsExhausted} :
    trackAfter e loops taken source part = .error (.exhausted fault) ↔
      (∃ i, e.findByType part.instrument = some i ∧ i.takesChannel = true) ∧ 15 ≤ taken ∧
        fault.channel = melodicChannel taken := by
  simp only [trackAfter]
  cases e.findByType part.instrument with
  | none => simp
  | some i =>
    simp only [Option.some.injEq, exists_eq_left']
    split_ifs with hfull
    · simp only [Except.error.injEq, PartFault.exhausted.injEq, hfull, true_and]
      exact ⟨fun h => h ▸ rfl, fun h => by cases fault; simp_all⟩
    · have hnever : ¬ (i.takesChannel = true ∧ 15 ≤ taken ∧ fault.channel = melodicChannel taken) :=
        fun h => hfull ⟨h.1, h.2.1⟩
      simp only [hnever, iff_false]
      -- whatever else can go wrong with the part is another fault
      intro h
      split at h
      · cases h
      · split at h <;> cases h

/-- The counter of an assembly stands for the number of channels taken: adding a part gives the
track by position, and the counter stands for the new number. -/
theorem addPart_of_ok (s : Score) {taken : Nat} {source : String} {part : Part} {t : Track}
    (h : trackAfter e loops taken source part = .ok t) :
    Assembly.addPart e loops ⟨s, counterAfter taken⟩ source part
      = (.ok t, ⟨s.add t, counterAfter (taken + if e.takesChannel part then 1 else 0)⟩) := by
  cases hfound : e.findByType part.instrument with
  | none => simp [trackAfter, hfound] at h
  | some i =>
    simp only [trackAfter, hfound] at h
    split_ifs at h with hfull
    obtain ⟨a, hallocate, hseat⟩ := allocate_of_room hfull
    cases hmade : Track.make i.name (i.seatAfter taken).1 (i.seatAfter taken).2 with
    | error fault => simp [hmade] at h
    | ok made =>
      cases hnotes : timeline i part.slots loops with
      | error fault => simp [hmade, hnotes] at h
      | ok notes =>
        simp only [hmade, hnotes] at h
        cases h
        simp only [Assembly.addPart, Ensemble.takesChannel, hfound, hallocate, hseat, hmade, hnotes,
          Option.any_some]

/-- A part that becomes no track by position cannot be added, for the same reason. -/
theorem addPart_of_error (s : Score) {taken : Nat} {source : String} {part : Part}
    {fault : PartFault} (h : trackAfter e loops taken source part = .error fault) :
    (Assembly.addPart e loops ⟨s, counterAfter taken⟩ source part).1 = .error fault := by
  cases hfound : e.findByType part.instrument with
  | none =>
    simp only [trackAfter, hfound] at h
    cases h
    simp only [Assembly.addPart, hfound]
  | some i =>
    simp only [trackAfter, hfound] at h
    split_ifs at h with hfull
    · cases h
      simp only [Assembly.addPart, hfound, allocate_of_full hfull.1 hfull.2]
    · obtain ⟨a, hallocate, hseat⟩ := allocate_of_room hfull
      simp only [Assembly.addPart, hfound, hallocate, hseat]
      cases hmade : Track.make i.name (i.seatAfter taken).1 (i.seatAfter taken).2 with
      | error fault' =>
        simp only [hmade] at h
        exact h
      | ok made =>
        cases hnotes : timeline i part.slots loops with
        | error fault' =>
          simp only [hmade, hnotes] at h
          exact h
        | ok notes => simp [hmade, hnotes] at h

/-! ## Parts in order -/

/-- No parts take no channels. -/
@[simp]
theorem Ensemble.taken_nil : e.taken [] = 0 := rfl

/-- A first part and the others become tracks if the first does and then the others do. -/
theorem tracksAfter_cons_eq_ok_iff {taken : Nat} {source : String} {part : Part}
    {rest : List (String × Part)} {ts : List Track} :
    tracksAfter e loops taken ((source, part) :: rest) = .ok ts ↔
      ∃ t more, trackAfter e loops taken source part = .ok t ∧
        tracksAfter e loops (taken + if e.takesChannel part then 1 else 0) rest = .ok more ∧
        ts = t :: more := by
  simp only [tracksAfter]
  cases trackAfter e loops taken source part with
  | error fault => simp
  | ok t =>
    cases tracksAfter e loops (taken + if e.takesChannel part then 1 else 0) rest with
    | error fault => simp [Except.map]
    | ok more => simp [Except.map, eq_comm]

/-- The channel of a first part can be counted with those before it or with those after it. -/
theorem Ensemble.taken_cons (taken : Nat) (source : String) (part : Part)
    (rest : List (String × Part)) :
    (taken + if e.takesChannel part then 1 else 0) + e.taken rest
      = taken + e.taken ((source, part) :: rest) := by
  simp only [Ensemble.taken, List.countP_cons]
  omega

/-- An assembly goes through its parts as `tracksAfter` does, and appends their tracks. -/
theorem addParts_eq (s : Score) (taken : Nat) (parts : List (String × Part)) :
    Assembly.addParts e loops ⟨s, counterAfter taken⟩ parts
      = (tracksAfter e loops taken parts).map fun ts =>
          ⟨{ s with tracks := s.tracks ++ ts }, counterAfter (taken + e.taken parts)⟩ := by
  induction parts generalizing s taken with
  | nil => simp [Assembly.addParts, tracksAfter, Except.map]
  | cons p rest ih =>
    obtain ⟨source, part⟩ := p
    simp only [Assembly.addParts, tracksAfter]
    cases h : trackAfter e loops taken source part with
    | error fault =>
      have hadd := addPart_of_error s h
      cases hstep : Assembly.addPart e loops ⟨s, counterAfter taken⟩ source part with
      | mk result after =>
        rw [hstep] at hadd
        subst hadd
        rfl
    | ok t =>
      rw [addPart_of_ok s h]
      dsimp only
      rw [ih]
      cases tracksAfter e loops (taken + if e.takesChannel part then 1 else 0) rest with
      | error fault => rfl
      | ok ts =>
        simp only [Except.map, Score.add, List.append_assoc, List.singleton_append,
          Ensemble.taken_cons taken source]

/-- Assembling a score has no hidden state. -/
theorem assemble_eq (tempo : Int) (parts : List (String × Part)) :
    assemble e loops tempo parts = (tracksAfter e loops 0 parts).map (Score.mk tempo) := by
  have hstart : Assembly.start tempo = ⟨.empty tempo, counterAfter 0⟩ := rfl
  rw [assemble, hstart, addParts_eq]
  cases tracksAfter e loops 0 parts <;> rfl

/-- A score is assembled from parts just if its tracks are those by position. -/
theorem assemble_eq_ok_iff {tempo : Int} {parts : List (String × Part)} {s : Score} :
    assemble e loops tempo parts = .ok s ↔
      s.tempo = tempo ∧ tracksAfter e loops 0 parts = .ok s.tracks := by
  obtain ⟨tempo', ts⟩ := s
  rw [assemble_eq]
  cases tracksAfter e loops 0 parts with
  | error fault => simp [Except.map]
  | ok ts' => simp [Except.map, eq_comm]

/-- A score is not assembled from parts just if a track by position is missing, for the same
reason. -/
theorem assemble_eq_error_iff {tempo : Int} {parts : List (String × Part)} {fault : PartFault} :
    assemble e loops tempo parts = .error fault ↔ tracksAfter e loops 0 parts = .error fault := by
  rw [assemble_eq, map_eq_error_iff]

/-! ## Who is asked for -/

/-- Of an ensemble a part asks for the instrument of its type, and for nothing else. -/
theorem Assembly.addPart_congr {e' : Ensemble} (a : Assembly) (source : String) {part : Part}
    (h : e'.findByType part.instrument = e.findByType part.instrument) :
    a.addPart e' loops source part = a.addPart e loops source part := by
  rw [Assembly.addPart, Assembly.addPart, h]

/-- Adding parts depends on the ensemble only through who plays the parts. -/
theorem Assembly.addParts_congr {e' : Ensemble} (a : Assembly) {parts : List (String × Part)}
    (h : ∀ p ∈ parts, e'.findByType p.2.instrument = e.findByType p.2.instrument) :
    Assembly.addParts e' loops a parts = Assembly.addParts e loops a parts := by
  induction parts generalizing a with
  | nil => rfl
  | cons p parts ih =>
    obtain ⟨source, part⟩ := p
    have hrest : ∀ p ∈ parts, e'.findByType p.2.instrument = e.findByType p.2.instrument :=
      fun p hp => h p (List.mem_cons_of_mem _ hp)
    rw [Assembly.addParts, Assembly.addParts,
      Assembly.addPart_congr a source (h _ List.mem_cons_self)]
    simp only [ih _ hrest]

/-- Ensembles that answer alike for the types of some parts assemble them alike. -/
theorem assemble_congr {e' : Ensemble} (tempo : Int) {parts : List (String × Part)}
    (h : ∀ p ∈ parts, e'.findByType p.2.instrument = e.findByType p.2.instrument) :
    assemble e' loops tempo parts = assemble e loops tempo parts := by
  rw [assemble, assemble, Assembly.addParts_congr _ h]

/-! ## Tracks by position -/

/-- There is a track for each part, and it is the one that the part becomes by position. -/
theorem getElem?_tracksAfter {taken : Nat} {parts : List (String × Part)} {ts : List Track}
    (h : tracksAfter e loops taken parts = .ok ts) :
    ts.length = parts.length ∧
      ∀ n source part, parts[n]? = some (source, part) →
        ∃ t, ts[n]? = some t ∧
          trackAfter e loops (taken + e.taken (parts.take n)) source part = .ok t := by
  induction parts generalizing taken ts with
  | nil =>
    cases h
    exact ⟨rfl, fun n source part hn => by simp at hn⟩
  | cons p rest ih =>
    obtain ⟨source, part⟩ := p
    obtain ⟨t, more, ht, hrest, rfl⟩ := tracksAfter_cons_eq_ok_iff.mp h
    obtain ⟨hlength, hget⟩ := ih hrest
    refine ⟨by simp [hlength], fun n source' part' hn => ?_⟩
    cases n with
    | zero =>
      cases hn
      exact ⟨t, rfl, by simpa using ht⟩
    | succ n =>
      obtain ⟨t', ht', htrack⟩ := hget n source' part' hn
      refine ⟨t', ht', ?_⟩
      rw [List.take_succ_cons, ← Ensemble.taken_cons, htrack]

/-- The notes of a track are those that some instrument plays. -/
theorem exists_timeline_of_mem_tracks {tempo : Int} {parts : List (String × Part)} {s : Score}
    (h : assemble e loops tempo parts = .ok s) {t : Track} (ht : t ∈ s.tracks) :
    ∃ i slots, timeline i slots loops = .ok t.notes := by
  obtain ⟨-, hts⟩ := assemble_eq_ok_iff.mp h
  obtain ⟨hlength, hget⟩ := getElem?_tracksAfter hts
  obtain ⟨n, hn, hnth⟩ := List.mem_iff_getElem.mp ht
  have hn' : n < parts.length := hlength ▸ hn
  have hpart : parts[n]? = some parts[n] := List.getElem?_eq_getElem hn'
  obtain ⟨t', ht', htrack⟩ := hget n _ _ hpart
  rw [List.getElem?_eq_getElem hn, hnth] at ht'
  cases ht'
  obtain ⟨i, -, -, -, -, hnotes⟩ := trackAfter_eq_ok htrack
  exact ⟨i, _, hnotes⟩

/-- Parts cannot all become tracks exactly if there is a first that cannot, and its fault is the one
that is found. -/
theorem tracksAfter_eq_error_iff {taken : Nat} {parts : List (String × Part)} {fault : PartFault} :
    tracksAfter e loops taken parts = .error fault ↔
      ∃ before source part after, parts = before ++ (source, part) :: after ∧
        (∃ ts, tracksAfter e loops taken before = .ok ts) ∧
        trackAfter e loops (taken + e.taken before) source part = .error fault := by
  induction parts generalizing taken with
  | nil => simp [tracksAfter]
  | cons p rest ih =>
    obtain ⟨source, part⟩ := p
    simp only [tracksAfter]
    cases htrack : trackAfter e loops taken source part with
    | error first =>
      constructor
      · intro h
        cases h
        exact ⟨[], source, part, rest, rfl, ⟨[], rfl⟩, by simpa using htrack⟩
      · -- nothing comes before a first part that fails, so it is the first to fail
        rintro ⟨before, source', part', after, hparts, ⟨ts, hts⟩, herror⟩
        cases before with
        | nil =>
          cases hparts
          rw [Ensemble.taken_nil, Nat.add_zero, htrack] at herror
          cases herror
          rfl
        | cons q before =>
          cases hparts
          obtain ⟨t, -, ht, -⟩ := tracksAfter_cons_eq_ok_iff.mp hts
          rw [htrack] at ht
          cases ht
    | ok t =>
      rw [map_eq_error_iff, ih]
      constructor
      · rintro ⟨before, source', part', after, rfl, ⟨ts, hts⟩, herror⟩
        refine ⟨(source, part) :: before, source', part', after, rfl, ⟨t :: ts, ?_⟩, ?_⟩
        · exact tracksAfter_cons_eq_ok_iff.mpr ⟨t, ts, htrack, hts, rfl⟩
        · rw [← Ensemble.taken_cons, herror]
      · rintro ⟨before, source', part', after, hparts, ⟨ts, hts⟩, herror⟩
        cases before with
        | nil =>
          cases hparts
          rw [Ensemble.taken_nil, Nat.add_zero, htrack] at herror
          cases herror
        | cons q before =>
          cases hparts
          obtain ⟨-, more, -, hmore, -⟩ := tracksAfter_cons_eq_ok_iff.mp hts
          rw [← Ensemble.taken_cons] at herror
          exact ⟨before, source', part', after, rfl, ⟨more, hmore⟩, herror⟩

/-! ## Channels over a whole score -/

/-- A track has a program just if its part takes a channel. -/
theorem program_isSome_of_trackAfter {taken : Nat} {source : String} {part : Part} {t : Track}
    (h : trackAfter e loops taken source part = .ok t) :
    t.program.isSome = e.takesChannel part := by
  obtain ⟨i, hi, -, -, hseat, -⟩ := trackAfter_eq_ok h
  have hprogram : t.program = (i.seatAfter taken).2 := congrArg Prod.snd hseat
  rw [hprogram, Instrument.seatAfter_program_isSome, Ensemble.takesChannel, hi, Option.any_some]

/-- A track with a program has the melodic channel behind those taken. -/
theorem channel_of_trackAfter {taken : Nat} {source : String} {part : Part} {t : Track}
    (h : trackAfter e loops taken source part = .ok t) (hprogram : t.program.isSome = true) :
    t.channel = melodicChannel taken := by
  rw [program_isSome_of_trackAfter h] at hprogram
  obtain ⟨i, hi, -, -, hseat, -⟩ := trackAfter_eq_ok h
  rw [Ensemble.takesChannel, hi, Option.any_some] at hprogram
  rw [← Instrument.seatAfter_of_takesChannel hprogram taken]
  exact congrArg Prod.fst hseat

/-- Parts that all became tracks never took more than the fifteen channels there are. -/
theorem taken_le_of_tracksAfter {taken : Nat} {parts : List (String × Part)} {ts : List Track}
    (h : tracksAfter e loops taken parts = .ok ts) (htaken : taken ≤ 15) :
    taken + e.taken parts ≤ 15 := by
  induction parts generalizing taken ts with
  | nil => simpa using htaken
  | cons p rest ih =>
    obtain ⟨source, part⟩ := p
    obtain ⟨t, more, ht, hrest, -⟩ := tracksAfter_cons_eq_ok_iff.mp h
    rw [← Ensemble.taken_cons]
    apply ih hrest
    obtain ⟨i, hi, hroom, -⟩ := trackAfter_eq_ok ht
    rw [Ensemble.takesChannel, hi, Option.any_some]
    split_ifs with htakes
    · have hlt : taken < 15 := not_le.mp fun hle => hroom ⟨htakes, hle⟩
      omega
    · omega

/-- Tracks that send a program sit on higher and higher channels, from the first free one on. -/
theorem melodic_channels_increase {taken : Nat} {parts : List (String × Part)} {ts : List Track}
    (h : tracksAfter e loops taken parts = .ok ts) :
    (∀ t ∈ ts, t.program.isSome = true → melodicChannel taken ≤ t.channel) ∧
      (ts.filter fun t => t.program.isSome).Pairwise fun a b => a.channel < b.channel := by
  induction parts generalizing taken ts with
  | nil =>
    cases h
    simp
  | cons p rest ih =>
    obtain ⟨source, part⟩ := p
    obtain ⟨t, more, ht, hrest, rfl⟩ := tracksAfter_cons_eq_ok_iff.mp h
    obtain ⟨hfrom, hincrease⟩ := ih hrest
    by_cases hprogram : t.program.isSome = true
    · -- the track takes the first free channel, and the others start behind it
      rw [← program_isSome_of_trackAfter ht, if_pos hprogram] at hfrom
      have hchannel := channel_of_trackAfter ht hprogram
      have hbehind : ∀ t' ∈ more, t'.program.isSome = true → t.channel < t'.channel := by
        intro t' ht' hprogram'
        rw [hchannel]
        exact lt_of_lt_of_le (melodicChannel_lt taken.lt_succ_self) (hfrom t' ht' hprogram')
      constructor
      · intro t' ht' hprogram'
        rcases List.mem_cons.mp ht' with rfl | hmore
        · exact hchannel.ge
        · exact hchannel ▸ (hbehind t' hmore hprogram').le
      · rw [List.filter_cons_of_pos (by exact hprogram)]
        refine List.pairwise_cons.mpr ⟨fun t' ht' => ?_, hincrease⟩
        obtain ⟨hmore, hprogram'⟩ := List.mem_filter.mp ht'
        exact hbehind t' hmore hprogram'
    · rw [← program_isSome_of_trackAfter ht, if_neg hprogram, Nat.add_zero] at hfrom
      constructor
      · intro t' ht' hprogram'
        rcases List.mem_cons.mp ht' with rfl | hmore
        · exact absurd hprogram' hprogram
        · exact hfrom t' hmore hprogram'
      · rwa [List.filter_cons_of_neg (by exact hprogram)]

/-! ## Scores -/

/-- No two tracks with a program share a channel. -/
theorem nodup_channels_of_assemble {tempo : Int} {parts : List (String × Part)} {s : Score}
    (h : assemble e loops tempo parts = .ok s) :
    ((s.tracks.filter fun t => t.program.isSome).map Track.channel).Nodup := by
  obtain ⟨-, hts⟩ := assemble_eq_ok_iff.mp h
  rw [List.nodup_iff_pairwise_ne, List.pairwise_map]
  exact (melodic_channels_increase hts).2.imp fun hlt => ne_of_lt hlt

/-- The track of a score that stands where a part stands. -/
theorem exists_track_of_assemble {tempo : Int} {parts : List (String × Part)} {s : Score}
    (h : assemble e loops tempo parts = .ok s) {n : Nat} {source : String} {part : Part}
    (hn : parts[n]? = some (source, part)) :
    ∃ t i, s.tracks[n]? = some t ∧ e.findByType part.instrument = some i ∧
      t.name = i.name ∧ timeline i part.slots loops = .ok t.notes ∧
      (t.channel, t.program) = i.seatAfter (e.taken (parts.take n)) ∧
      (t.channel = 9 ↔ i.definition.pitchMap.isSome = true) := by
  obtain ⟨-, hts⟩ := assemble_eq_ok_iff.mp h
  obtain ⟨t, ht, htrack⟩ := (getElem?_tracksAfter hts).2 n source part hn
  rw [Nat.zero_add] at htrack
  obtain ⟨i, hi, -, hname, hseat, hnotes⟩ := trackAfter_eq_ok htrack
  refine ⟨t, i, ht, hi, hname, hnotes, hseat, ?_⟩
  rw [← Instrument.seatAfter_eq_drumChannel_iff i (e.taken (parts.take n)), ← hseat]

/-- The channels run out exactly if the first part that becomes no track asks for a sixteenth. -/
theorem assemble_eq_exhausted_iff {tempo : Int} {parts : List (String × Part)}
    {fault : ChannelsExhausted} :
    assemble e loops tempo parts = .error (.exhausted fault) ↔
      fault.channel = 16 ∧
      ∃ before source part after, parts = before ++ (source, part) :: after ∧
        (∃ s, assemble e loops tempo before = .ok s) ∧
        (∀ s, assemble e loops tempo (before ++ [(source, part)]) ≠ .ok s) ∧
        (∃ i, e.findByType part.instrument = some i ∧ i.takesChannel = true) ∧
        e.taken before = 15 := by
  rw [assemble_eq_error_iff, tracksAfter_eq_error_iff]
  constructor
  · rintro ⟨before, source, part, after, hparts, ⟨ts, hts⟩, herror⟩
    have hbefore : assemble e loops tempo before = .ok ⟨tempo, ts⟩ :=
      assemble_eq_ok_iff.mpr ⟨rfl, hts⟩
    have hfails : assemble e loops tempo (before ++ [(source, part)]) = .error (.exhausted fault) :=
      assemble_eq_error_iff.mpr
        (tracksAfter_eq_error_iff.mpr ⟨before, source, part, [], rfl, ⟨ts, hts⟩, herror⟩)
    rw [Nat.zero_add] at herror
    obtain ⟨htakes, hfull, hchannel⟩ := trackAfter_eq_exhausted_iff.mp herror
    -- what became tracks took at most fifteen channels, so the sixteenth is asked for now
    have hle := taken_le_of_tracksAfter hts (by omega)
    have hfifteen : e.taken before = 15 := by omega
    rw [hfifteen] at hchannel
    refine ⟨hchannel, before, source, part, after, hparts, ⟨_, hbefore⟩, ?_, htakes, hfifteen⟩
    intro s hs
    rw [hfails] at hs
    cases hs
  · rintro ⟨hchannel, before, source, part, after, hparts, ⟨s, hs⟩, -, htakes, hfifteen⟩
    obtain ⟨-, hts⟩ := assemble_eq_ok_iff.mp hs
    refine ⟨before, source, part, after, hparts, ⟨s.tracks, hts⟩, ?_⟩
    rw [Nat.zero_add, hfifteen, trackAfter_eq_exhausted_iff]
    exact ⟨htakes, le_rfl, hchannel⟩

/-- A score by position. Each part becomes one track, in order: it has the name of the first
instrument of its type, the notes that this instrument plays, and a seat that only the number of
channels taken before it decides. So percussion has the drum channel for itself, and no two tracks
with a program share a channel. The channels run out, with the next one after the last, exactly if
the first part that cannot become a track is the sixteenth to ask for one. -/
theorem assemble_by_position (e : Ensemble) (loops tempo : Int) (parts : List (String × Part)) :
    (∀ s, assemble e loops tempo parts = .ok s →
      s.tempo = tempo ∧ s.tracks.length = parts.length ∧
      (∀ n source part, parts[n]? = some (source, part) →
        ∃ t i, s.tracks[n]? = some t ∧ e.findByType part.instrument = some i ∧
          t.name = i.name ∧ timeline i part.slots loops = .ok t.notes ∧
          (t.channel, t.program) = i.seatAfter (e.taken (parts.take n)) ∧
          (t.channel = 9 ↔ i.definition.pitchMap.isSome = true)) ∧
      ((s.tracks.filter fun t => t.program.isSome).map Track.channel).Nodup) ∧
    (∀ fault, assemble e loops tempo parts = .error (.exhausted fault) ↔
      fault.channel = 16 ∧
      ∃ before source part after, parts = before ++ (source, part) :: after ∧
        (∃ s, assemble e loops tempo before = .ok s) ∧
        (∀ s, assemble e loops tempo (before ++ [(source, part)]) ≠ .ok s) ∧
        (∃ i, e.findByType part.instrument = some i ∧ i.takesChannel = true) ∧
        e.taken before = 15) := by
  refine ⟨fun s hs => ?_, fun fault => assemble_eq_exhausted_iff⟩
  obtain ⟨htempo, hts⟩ := assemble_eq_ok_iff.mp hs
  exact ⟨htempo, (getElem?_tracksAfter hts).1, fun n source part => exists_track_of_assemble hs,
    nodup_channels_of_assemble hs⟩

end Ostinato

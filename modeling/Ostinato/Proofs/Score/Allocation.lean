import Mathlib.Tactic.IntervalCases
import Ostinato.Proofs.Score.Channel

/-!
# Allocation over a run

Instruments ask for channels one after the other, from any counter on, and an allocation that fails
does not end the run. The invariant is `freeFrom`, the channels that a counter leaves: a melodic
instrument with a program takes the first of them, all others leave them as they are. The main
result is `givenInOrder_allocations`.
-/

namespace Ostinato

/-- An allocation: the instrument that asks, the counter that it finds, and what comes of it. -/
structure Allocation where
  instrument : Instrument
  counter : Int
  outcome : Except ChannelsExhausted (Option Assignment × Int)

namespace Allocation

/-- The counter that an allocation hands on. One that fails hands on what it found. -/
def next (a : Allocation) : Int :=
  match a.outcome with
  | .ok (_, counter) => counter
  | .error _ => a.counter

/-- The channel that is taken from the counter, if one is. -/
def channel? (a : Allocation) : Option Int :=
  match a.outcome with
  | .ok (some seat, _) => if a.instrument.takesChannel then some seat.channel else none
  | _ => none

/-- The allocation of an instrument at a counter. -/
def make (i : Instrument) (counter : Int) : Allocation := ⟨i, counter, allocate i counter⟩

end Allocation

/-- The allocations of instruments that ask one after the other. -/
def allocations : Int → List Instrument → List Allocation
  | _, [] => []
  | counter, i :: is => .make i counter :: allocations (Allocation.make i counter).next is

/-- The channels from a counter on that are not for percussion, in increasing order. -/
def freeFrom (counter : Int) : List Int :=
  [0, 1, 2, 3, 4, 5, 6, 7, 8, 10, 11, 12, 13, 14, 15].filter (counter ≤ ·)

/-- How many of some instruments ask for a channel of their own. -/
def channelsAsked (is : List Instrument) : Nat := is.countP Instrument.takesChannel

variable {i : Instrument} {counter : Int}

/-! ## What a counter leaves -/

/-- The free channels increase. -/
theorem freeFrom_increasing (counter : Int) : (freeFrom counter).Pairwise (· < ·) := by
  apply List.Pairwise.filter
  decide

/-- Beyond the last channel nothing is left. -/
theorem freeFrom_of_gt (h : maxChannel < counter) : freeFrom counter = [] := by
  unfold maxChannel at h
  simp only [freeFrom, List.filter_eq_nil_iff, List.mem_cons, List.not_mem_nil, or_false,
    decide_eq_true_eq]
  omega

/-- Up to the last channel the first that is left is the counter itself, or the one above it if that
is the drum channel. -/
theorem freeFrom_of_le (hnonneg : 0 ≤ counter) (hle : counter ≤ maxChannel) :
    freeFrom counter
      = (if counter = drumChannel then counter + 1 else counter)
        :: freeFrom ((if counter = drumChannel then counter + 1 else counter) + 1) := by
  unfold maxChannel at hle
  interval_cases counter <;> rfl

/-! ## One allocation -/

/-- An instrument with a pitch map gets the drum channel and leaves the counter. -/
theorem allocate_of_percussion (h : i.definition.pitchMap.isSome = true) (counter : Int) :
    allocate i counter = .ok (some ⟨9, none⟩, counter) := by
  rw [allocate, Instrument.isPercussion_eq, if_pos h]
  rfl

/-- An instrument with neither a pitch map nor a program gets nothing and leaves the counter. -/
theorem allocate_of_no_program (hmap : i.definition.pitchMap = none)
    (hprogram : i.definition.program = none) (counter : Int) :
    allocate i counter = .ok (none, counter) := by
  simp [allocate, Instrument.isPercussion_eq, Instrument.program, hmap, hprogram]

/-- The first channel that is left is the one given, and the counter moves past it. -/
theorem allocate_of_free (hnonneg : 0 ≤ counter) (hmap : i.definition.pitchMap = none)
    {program : Int} (hprogram : i.definition.program = some program) {channel : Int}
    {later : List Int} (hfree : freeFrom counter = channel :: later) :
    allocate i counter = .ok (some ⟨channel, some (program - 1)⟩, channel + 1) ∧
      freeFrom (channel + 1) = later ∧ 0 ≤ channel := by
  have hle : counter ≤ maxChannel := by
    by_contra hgt
    rw [freeFrom_of_gt (not_le.mp hgt)] at hfree
    cases hfree
  rw [freeFrom_of_le hnonneg hle] at hfree
  obtain ⟨hchannel, hlater⟩ := List.cons.inj hfree
  rw [hchannel] at hlater
  have hroom : ¬ maxChannel < channel := by
    rw [← hchannel]
    unfold maxChannel drumChannel at *
    split_ifs <;> omega
  refine ⟨?_, hlater, ?_⟩
  · simp [allocate, Instrument.isPercussion_eq, Instrument.program, hmap, hprogram, hchannel,
      hroom]
  · rw [← hchannel]
    split_ifs <;> omega

/-- When nothing is left, the fault names the counter. It is past the drum channel then, so it is
also the channel that was tried. -/
theorem allocate_of_none_free (hnonneg : 0 ≤ counter) (hmap : i.definition.pitchMap = none)
    {program : Int} (hprogram : i.definition.program = some program)
    (hfree : freeFrom counter = []) : allocate i counter = .error ⟨counter⟩ := by
  have hgt : maxChannel < counter := by
    by_contra hle
    rw [freeFrom_of_le hnonneg (not_lt.mp hle)] at hfree
    cases hfree
  have hdrum : counter ≠ drumChannel := by
    unfold maxChannel drumChannel at *
    omega
  simp [allocate, Instrument.isPercussion_eq, Instrument.program, hmap, hprogram, hdrum, hgt]

/-- An instrument takes a channel if it has a program and no pitch map. -/
theorem Instrument.takesChannel_iff :
    i.takesChannel = true ↔
      i.definition.pitchMap = none ∧ ∃ program, i.definition.program = some program := by
  simp [Instrument.takesChannel, Option.isSome_iff_exists]

/-- The channel that is taken is the first that is left, if one is asked for, and the others stay
left. -/
theorem Allocation.make_free (hnonneg : 0 ≤ counter) (i : Instrument) :
    (Allocation.make i counter).channel?
        = (if i.takesChannel then (freeFrom counter).head? else none) ∧
      freeFrom (Allocation.make i counter).next
        = (freeFrom counter).drop (if i.takesChannel then 1 else 0) ∧
      0 ≤ (Allocation.make i counter).next := by
  by_cases htakes : i.takesChannel = true
  · obtain ⟨hmap, program, hprogram⟩ := Instrument.takesChannel_iff.mp htakes
    cases hfree : freeFrom counter with
    | nil =>
      have herror := allocate_of_none_free hnonneg hmap hprogram hfree
      simp [Allocation.make, Allocation.channel?, Allocation.next, herror, hfree, hnonneg]
    | cons channel later =>
      obtain ⟨hok, hlater, hchannel⟩ := allocate_of_free hnonneg hmap hprogram hfree
      have hnext : 0 ≤ channel + 1 := by omega
      simp [Allocation.make, Allocation.channel?, Allocation.next, hok, htakes, hlater, hnext]
  · have hsame : ∃ a, allocate i counter = .ok (a, counter) := by
      cases hmap : i.definition.pitchMap with
      | some table => exact ⟨_, allocate_of_percussion (by simp [hmap]) counter⟩
      | none =>
        cases hprogram : i.definition.program with
        | none => exact ⟨_, allocate_of_no_program hmap hprogram counter⟩
        | some program =>
          exact absurd (Instrument.takesChannel_iff.mpr ⟨hmap, program, hprogram⟩) htakes
    obtain ⟨a, ha⟩ := hsame
    cases a <;> simp [Allocation.make, Allocation.channel?, Allocation.next, ha, htakes, hnonneg]

/-! ## A run -/

/-- Every instrument is allocated, in order. -/
@[simp]
theorem map_instrument_allocations (counter : Int) (is : List Instrument) :
    (allocations counter is).map Allocation.instrument = is := by
  induction is generalizing counter with
  | nil => rfl
  | cons i is ih => simp [allocations, Allocation.make, ih]

/-- Every instrument finds a counter that leaves just what those before it have not taken. -/
theorem getElem?_allocations (hnonneg : 0 ≤ counter) {is : List Instrument} {n : Nat}
    {a : Allocation} (h : (allocations counter is)[n]? = some a) :
    a = .make a.instrument a.counter ∧ 0 ≤ a.counter ∧
      freeFrom a.counter = (freeFrom counter).drop (channelsAsked (is.take n)) := by
  induction is generalizing counter n with
  | nil => simp [allocations] at h
  | cons i is ih =>
    cases n with
    | zero =>
      rw [allocations, List.getElem?_cons_zero, Option.some_inj] at h
      subst h
      exact ⟨rfl, hnonneg, rfl⟩
    | succ n =>
      obtain ⟨-, hleft, hnext⟩ := Allocation.make_free hnonneg i
      rw [allocations, List.getElem?_cons_succ] at h
      obtain ⟨hmade, hcounter, hfree⟩ := ih hnext h
      refine ⟨hmade, hcounter, ?_⟩
      rw [hfree, hleft, List.drop_drop, List.take_succ_cons, channelsAsked, channelsAsked,
        List.countP_cons, Nat.add_comm]

/-- The channels that a run takes are the first of those that its counter leaves. -/
theorem channels_allocations (hnonneg : 0 ≤ counter) (is : List Instrument) :
    (allocations counter is).filterMap Allocation.channel?
      = (freeFrom counter).take (channelsAsked is) := by
  induction is generalizing counter with
  | nil => rfl
  | cons i is ih =>
    obtain ⟨hchannel, hleft, hnext⟩ := Allocation.make_free hnonneg i
    rw [allocations, List.filterMap_cons, hchannel, ih hnext, hleft, channelsAsked, channelsAsked,
      List.countP_cons]
    by_cases htakes : i.takesChannel = true
    · cases freeFrom counter <;> simp [htakes]
    · simp [htakes]

/-- A run of allocations that gives channels in order, from a counter on. -/
structure GivenInOrder (counter : Int) (is : List Instrument) (run : List Allocation) : Prop where
  /-- Every instrument asks, whatever came of those before. -/
  instruments : run.map Allocation.instrument = is
  /-- The channels that are taken are the first that the counter leaves. -/
  channels : run.filterMap Allocation.channel? = (freeFrom counter).take (channelsAsked is)
  /-- So they go up, and none is given twice. -/
  increasing : (run.filterMap Allocation.channel?).Pairwise (· < ·)
  /-- As long as one is left, a melodic instrument gets it, with its program from 0. -/
  given : ∀ n a program channel, run[n]? = some a → a.instrument.definition.pitchMap = none →
    a.instrument.definition.program = some program →
    (freeFrom counter)[channelsAsked (is.take n)]? = some channel →
    a.outcome = .ok (some ⟨channel, some (program - 1)⟩, channel + 1)
  /-- Once all are used up, it fails, and the fault names the counter. -/
  exhausted : ∀ n a program, run[n]? = some a → a.instrument.definition.pitchMap = none →
    a.instrument.definition.program = some program →
    (freeFrom counter).length ≤ channelsAsked (is.take n) →
    a.outcome = .error ⟨a.counter⟩ ∧ a.next = a.counter
  /-- Percussion is always on the drum channel, even if it has a program. -/
  percussion : ∀ a ∈ run, a.instrument.definition.pitchMap.isSome = true →
    a.outcome = .ok (some ⟨9, none⟩, a.counter)
  /-- Without a program there is nothing to assign. -/
  unassigned : ∀ a ∈ run, a.instrument.definition.pitchMap = none →
    a.instrument.definition.program = none → a.outcome = .ok (none, a.counter)

/-- Over a whole run, melodic instruments with a program get the channels from the counter on, one
after the other and each once, until there are no more; from then on each of them fails, and none
does before. Others never fail and do not move the counter. -/
theorem givenInOrder_allocations (hnonneg : 0 ≤ counter) (is : List Instrument) :
    GivenInOrder counter is (allocations counter is) := by
  have hchannels := channels_allocations hnonneg is
  refine ⟨map_instrument_allocations counter is, hchannels, ?increasing, ?given, ?exhausted,
    ?percussion, ?unassigned⟩
  case increasing =>
    rw [hchannels]
    exact (freeFrom_increasing counter).sublist (List.take_sublist _ _)
  case given =>
    intro n a program channel ha hmap hprogram hchannel
    obtain ⟨hmade, hcounter, hfree⟩ := getElem?_allocations hnonneg ha
    obtain ⟨hlt, hget⟩ := List.getElem?_eq_some_iff.mp hchannel
    rw [List.drop_eq_getElem_cons hlt, hget] at hfree
    rw [hmade]
    exact (allocate_of_free hcounter hmap hprogram hfree).1
  case exhausted =>
    intro n a program ha hmap hprogram hused
    obtain ⟨hmade, hcounter, hfree⟩ := getElem?_allocations hnonneg ha
    rw [List.drop_eq_nil_of_le hused] at hfree
    have houtcome : a.outcome = .error ⟨a.counter⟩ := by
      rw [hmade]
      exact allocate_of_none_free hcounter hmap hprogram hfree
    exact ⟨houtcome, by rw [Allocation.next, houtcome]⟩
  case percussion =>
    intro a ha hmap
    obtain ⟨n, hn⟩ := List.mem_iff_getElem?.mp ha
    rw [(getElem?_allocations hnonneg hn).1]
    exact allocate_of_percussion hmap a.counter
  case unassigned =>
    intro a ha hmap hprogram
    obtain ⟨n, hn⟩ := List.mem_iff_getElem?.mp ha
    rw [(getElem?_allocations hnonneg hn).1]
    exact allocate_of_no_program hmap hprogram a.counter

/-- From a counter just below the drum channel, with percussion that has a program in between, and
from the last channel on, where the second melodic instrument fails and percussion still does
not. -/
theorem givenInOrder_allocations_at_bounds :
    let oud : Instrument := ⟨"oud", ⟨"oud", some 106, none⟩⟩
    let drums : Instrument := ⟨"drums", ⟨"drums", some 1, some [("dum", 36)]⟩⟩
    GivenInOrder 8 [oud, drums, oud] (allocations 8 [oud, drums, oud]) ∧
      (allocations 8 [oud, drums, oud]).filterMap Allocation.channel? = [8, 10] ∧
      GivenInOrder 15 [oud, oud, drums, oud] (allocations 15 [oud, oud, drums, oud]) ∧
      (allocations 15 [oud, oud, drums, oud]).filterMap Allocation.channel? = [15] ∧
      (allocations 15 [oud, oud, drums, oud]).map Allocation.next = [16, 16, 16, 16] :=
  ⟨givenInOrder_allocations (by decide) _, by decide, givenInOrder_allocations (by decide) _,
    by decide, by decide⟩

end Ostinato

import Mathlib.Tactic.SplitIfs
import Ostinato.Score.Assembly

/-!
# Channels by position

The counter of an assembly is determined by how many channels are taken: `counterAfter` gives it,
and `Instrument.seatAfter` gives the channel and program of the next instrument without any counter.
The two `allocate` lemmas say that allocation agrees with them, up to the last channel and past it.
-/

namespace Ostinato

/-- Percussion is what has a pitch table. -/
theorem Instrument.isPercussion_eq (i : Instrument) :
    i.isPercussion = i.definition.pitchMap.isSome := by
  simp only [Instrument.isPercussion, Instrument.pitching]
  cases i.definition.pitchMap <;> rfl

/-- Whether an instrument takes a channel from the counter: it is melodic and has a program. -/
def Instrument.takesChannel (i : Instrument) : Bool :=
  i.definition.pitchMap.isNone && i.definition.program.isSome

/-- The channel of the melodic instrument that comes after `taken` others. -/
def melodicChannel (taken : Nat) : Int := if taken < 9 then taken else taken + 1

/-- The counter when `taken` channels are taken. -/
def counterAfter (taken : Nat) : Int := if taken < 10 then taken else taken + 1

/-- The channel and the program, from 0, of an instrument when `taken` channels are taken. -/
def Instrument.seatAfter (i : Instrument) (taken : Nat) : Int × Option Int :=
  match i.definition.pitchMap, i.definition.program with
  | some _, _ => (9, none)
  | none, some program => (melodicChannel taken, some (program - 1))
  | none, none => (0, none)

/-- No melodic channel is the drum channel. -/
theorem melodicChannel_ne_drumChannel (taken : Nat) : melodicChannel taken ≠ 9 := by
  unfold melodicChannel
  split_ifs <;> omega

/-- Melodic channels increase. -/
theorem melodicChannel_lt {m n : Nat} (h : m < n) : melodicChannel m < melodicChannel n := by
  unfold melodicChannel
  split_ifs <;> omega

/-- Fifteen melodic instruments fill all channels but the drum channel. -/
theorem maxChannel_lt_melodicChannel_iff {taken : Nat} :
    maxChannel < melodicChannel taken ↔ 15 ≤ taken := by
  unfold melodicChannel maxChannel
  split_ifs <;> omega

/-- From the counter, one step over the drum channel included, comes the channel by position. -/
theorem counterAfter_stepped (taken : Nat) :
    (if counterAfter taken = drumChannel then counterAfter taken + 1 else counterAfter taken)
      = melodicChannel taken := by
  unfold counterAfter melodicChannel drumChannel
  split_ifs <;> omega

/-- Behind a melodic channel the counter stands for one channel more. -/
theorem melodicChannel_add_one (taken : Nat) :
    melodicChannel taken + 1 = counterAfter (taken + 1) := by
  unfold counterAfter melodicChannel
  split_ifs <;> omega

/-- Percussion alone sits on the drum channel. -/
theorem Instrument.seatAfter_eq_drumChannel_iff (i : Instrument) (taken : Nat) :
    (i.seatAfter taken).1 = 9 ↔ i.definition.pitchMap.isSome = true := by
  unfold Instrument.seatAfter
  cases i.definition.pitchMap with
  | some table => simp
  | none =>
    cases i.definition.program with
    | none => simp
    | some program => simp [melodicChannel_ne_drumChannel]

/-- Those that take a channel are those that send a program. -/
theorem Instrument.seatAfter_program_isSome (i : Instrument) (taken : Nat) :
    (i.seatAfter taken).2.isSome = i.takesChannel := by
  unfold Instrument.seatAfter Instrument.takesChannel
  cases i.definition.pitchMap <;> cases i.definition.program <;> rfl

/-- An instrument that takes a channel sits on the melodic channel behind those taken. -/
theorem Instrument.seatAfter_of_takesChannel {i : Instrument} (h : i.takesChannel = true)
    (taken : Nat) : (i.seatAfter taken).1 = melodicChannel taken := by
  unfold Instrument.takesChannel at h
  unfold Instrument.seatAfter
  cases hmap : i.definition.pitchMap <;> cases hprogram : i.definition.program <;>
    simp [hmap, hprogram] at h ⊢

/-! ## Allocation -/

/-- The sixteenth melodic instrument finds no channel, nor does any after it. -/
theorem allocate_of_full {i : Instrument} {taken : Nat} (hi : i.takesChannel = true)
    (htaken : 15 ≤ taken) :
    allocate i (counterAfter taken) = .error ⟨melodicChannel taken⟩ := by
  unfold Instrument.takesChannel at hi
  simp only [allocate, Instrument.isPercussion_eq, Instrument.program, counterAfter_stepped]
  cases hmap : i.definition.pitchMap <;> cases hprogram : i.definition.program <;>
    simp [hmap, hprogram, maxChannel_lt_melodicChannel_iff, htaken] at hi ⊢

/-- While there is room, the track of an instrument sits where its position says, and the counter
moves on if the instrument took a channel. -/
theorem allocate_of_room {i : Instrument} {taken : Nat}
    (h : ¬ (i.takesChannel = true ∧ 15 ≤ taken)) :
    ∃ a, allocate i (counterAfter taken)
        = .ok (a, counterAfter (taken + if i.takesChannel then 1 else 0)) ∧
      Assembly.seat i a = Track.make i.name (i.seatAfter taken).1 (i.seatAfter taken).2 := by
  unfold Instrument.takesChannel at h ⊢
  simp only [allocate, Instrument.isPercussion_eq, Instrument.program, counterAfter_stepped,
    Instrument.seatAfter]
  cases hmap : i.definition.pitchMap with
  | some table => exact ⟨some ⟨drumChannel, none⟩, by simp, rfl⟩
  | none =>
    cases hprogram : i.definition.program with
    | none => exact ⟨none, by simp, rfl⟩
    | some program =>
      have hroom : ¬ maxChannel < melodicChannel taken := by
        rw [maxChannel_lt_melodicChannel_iff]
        exact fun hfull => h ⟨by simp [hmap, hprogram], hfull⟩
      exact ⟨some ⟨melodicChannel taken, some (program - 1)⟩,
        by simp [hroom, melodicChannel_add_one], rfl⟩

end Ostinato

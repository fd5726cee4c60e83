import Mathlib
import Ostinato.Midi.Tick
import Ostinato.Proofs.Duration
import Ostinato.Proofs.Number.Rounding

/-!
# Times in ticks

Two facts about the conversion carry the results on exported tracks. A note that lasts more than one
tick stops on a later tick than it starts, wherever its start is rounded to. And at the usual
resolution a time on the grid is a whole number of ticks, so nothing is rounded at all.

Of times that are on no grid `ticks_nearest_even` says what the conversion does with each of them,
at tempos and resolutions of either sign.
-/

namespace Ostinato.Midi

variable {s t d : Rat} {tempo ticksPerBeat : Int}

/-- Exact ticks add up. -/
theorem exactTicks_add (s d : Rat) (tempo ticksPerBeat : Int) :
    exactTicks (s + d) tempo ticksPerBeat
      = exactTicks s tempo ticksPerBeat + exactTicks d tempo ticksPerBeat := by
  simp only [exactTicks]
  ring

/-- Exact ticks before zero are those after it, with the other sign. -/
theorem exactTicks_neg (s : Rat) (tempo ticksPerBeat : Int) :
    exactTicks (-s) tempo ticksPerBeat = -exactTicks s tempo ticksPerBeat := by
  simp only [exactTicks]
  ring

/-- A time goes by in ticks at a constant speed. -/
theorem exactTicks_eq_mul (s : Rat) (tempo ticksPerBeat : Int) :
    exactTicks s tempo ticksPerBeat = s * ((tempo * ticksPerBeat : Int) / 60) := by
  simp only [exactTicks]
  push_cast
  ring

/-- Times in order are on ticks in order. Only the sign of the speed matters. -/
theorem ticks_mono_of_mul (hspeed : 0 ≤ tempo * ticksPerBeat) (h : s ≤ t) :
    ticks s tempo ticksPerBeat ≤ ticks t tempo ticksPerBeat := by
  have hspeed' : (0 : Rat) ≤ (tempo * ticksPerBeat : Int) := by exact_mod_cast hspeed
  apply roundHalfEven_mono
  rw [exactTicks_eq_mul, exactTicks_eq_mul]
  gcongr

/-- A later time is on no earlier tick. -/
theorem ticks_mono (htempo : 0 ≤ tempo) (hticks : 0 ≤ ticksPerBeat) (h : s ≤ t) :
    ticks s tempo ticksPerBeat ≤ ticks t tempo ticksPerBeat :=
  ticks_mono_of_mul (Int.mul_nonneg htempo hticks) h

/-- If one of the tempo and the resolution is negative, ticks run backwards. -/
theorem ticks_anti_of_mul (hspeed : tempo * ticksPerBeat ≤ 0) (h : s ≤ t) :
    ticks t tempo ticksPerBeat ≤ ticks s tempo ticksPerBeat := by
  have hspeed' : ((tempo * ticksPerBeat : Int) : Rat) / 60 ≤ 0 :=
    div_nonpos_of_nonpos_of_nonneg (by exact_mod_cast hspeed) (by norm_num)
  apply roundHalfEven_mono
  rw [exactTicks_eq_mul, exactTicks_eq_mul]
  exact mul_le_mul_of_nonpos_right h hspeed'

/-- Ticks before zero are those after it, with the other sign. -/
theorem ticks_neg (s : Rat) (tempo ticksPerBeat : Int) :
    ticks (-s) tempo ticksPerBeat = -ticks s tempo ticksPerBeat := by
  rw [ticks, exactTicks_neg, roundHalfEven_neg, ticks]

/-- Zero is on the tick zero. -/
@[simp]
theorem ticks_zero (tempo ticksPerBeat : Int) : ticks 0 tempo ticksPerBeat = 0 := by
  have hzero : exactTicks 0 tempo ticksPerBeat = ((0 : Int) : Rat) := by simp [exactTicks]
  rw [ticks, hzero, roundHalfEven_intCast]

/-- It takes a tempo and a resolution of different signs to go back in time. -/
theorem ticks_nonneg_of_mul (hspeed : 0 ≤ tempo * ticksPerBeat) (h : 0 ≤ t) :
    0 ≤ ticks t tempo ticksPerBeat := by
  rw [← ticks_zero tempo ticksPerBeat]
  exact ticks_mono_of_mul hspeed h

/-- A time that is not negative is on a tick that is not. -/
theorem ticks_nonneg (htempo : 0 ≤ tempo) (hticks : 0 ≤ ticksPerBeat) (h : 0 ≤ t) :
    0 ≤ ticks t tempo ticksPerBeat :=
  ticks_nonneg_of_mul (Int.mul_nonneg htempo hticks) h

/-- More than one tick survives any rounding of the start and of the end. -/
theorem ticks_lt_ticks_add (t : Rat) (h : 1 < exactTicks d tempo ticksPerBeat) :
    ticks t tempo ticksPerBeat < ticks (t + d) tempo ticksPerBeat := by
  apply roundHalfEven_lt_of_one_lt
  rw [exactTicks_add]
  linarith

/-- The two roundings at the ends of a time make it longer by one tick at most. -/
theorem ticks_add_sub_ticks_le (t d : Rat) (tempo ticksPerBeat : Int) :
    ((ticks (t + d) tempo ticksPerBeat - ticks t tempo ticksPerBeat : Int) : Rat)
      ≤ exactTicks d tempo ticksPerBeat + 1 := by
  have hstop := roundHalfEven_le_add_half (exactTicks (t + d) tempo ticksPerBeat)
  have hstart := sub_half_le_roundHalfEven (exactTicks t tempo ticksPerBeat)
  rw [exactTicks_add] at hstop
  rw [ticks, ticks, exactTicks_add]
  push_cast
  linarith

/-- A sixteenth lasts more than one tick as soon as a beat of 60 has more than 240 of them. -/
theorem one_lt_exactTicks_of_isLength (hd : IsLength d) (h : 240 < tempo * ticksPerBeat) :
    1 < exactTicks d tempo ticksPerBeat := by
  have h' : (240 : Rat) < tempo * ticksPerBeat := by exact_mod_cast h
  have hd' := hd.sixteenth_le
  calc (1 : Rat) < 1 / 4 * (tempo * ticksPerBeat / 60) := by linarith
    _ ≤ d * (tempo * ticksPerBeat / 60) := by gcongr
    _ = exactTicks d tempo ticksPerBeat := by simp only [exactTicks]; ring

/-- At 480 ticks per beat a time on the grid is exactly on a tick, at every tempo. -/
theorem ticks_of_onGrid (ht : OnGrid t) (tempo : Int) :
    (ticks t tempo 480 : Rat) = exactTicks t tempo 480 := by
  obtain ⟨n, rfl⟩ := ht
  have hwhole : exactTicks (n / 4) tempo 480 = ((n * tempo * 2 : Int) : Rat) := by
    simp only [exactTicks]
    push_cast
    ring
  rw [ticks, hwhole, roundHalfEven_intCast]

/-- Since nothing is rounded, times on the grid add up in ticks. -/
theorem ticks_add_of_onGrid (hs : OnGrid s) (ht : OnGrid t) (tempo : Int) :
    ticks (s + t) tempo 480 = ticks s tempo 480 + ticks t tempo 480 := by
  have hcast : (ticks (s + t) tempo 480 : Rat) = ticks s tempo 480 + ticks t tempo 480 := by
    rw [ticks_of_onGrid (hs.add ht), ticks_of_onGrid hs, ticks_of_onGrid ht, exactTicks_add]
  exact_mod_cast hcast

/-- Multiples of a time on the grid are on the multiples of its tick. -/
theorem ticks_natCast_mul_of_onGrid (ht : OnGrid t) (n : Nat) (tempo : Int) :
    ticks (n * t) tempo 480 = n * ticks t tempo 480 := by
  have hcast : (ticks (n * t) tempo 480 : Rat) = n * ticks t tempo 480 := by
    rw [ticks_of_onGrid (ht.natCast_mul n), ticks_of_onGrid ht, exactTicks, exactTicks]
    ring
  exact_mod_cast hcast

/-! ## Rounding -/

/-- The time of some whole ticks is exactly as many ticks long. -/
theorem exactTicks_add_whole (s : Rat) (k : Int) (hspeed : tempo * ticksPerBeat ≠ 0) :
    exactTicks (s + 60 * k / (tempo * ticksPerBeat)) tempo ticksPerBeat
      = exactTicks s tempo ticksPerBeat + k := by
  have hspeed' : (tempo * ticksPerBeat : Rat) ≠ 0 := by exact_mod_cast hspeed
  have htempo : (tempo : Rat) ≠ 0 := left_ne_zero_of_mul hspeed'
  have hticks : (ticksPerBeat : Rat) ≠ 0 := right_ne_zero_of_mul hspeed'
  simp only [exactTicks]
  field_simp

/-- The conversion to ticks is a rounding to the nearest that sends a half to the even neighbour and
favours no direction: it fixes whole numbers of ticks, and a time and its opposite go to opposite
ticks. Times in order go to ticks in order, or in the opposite order if the tempo and the resolution
differ in sign. To come some whole ticks later in time is to come as many ticks later, except for an
odd number of them behind a half, whose even neighbour is then on its other side. -/
theorem ticks_nearest_even (tempo ticksPerBeat : Int) :
    (∀ s : Rat,
      let x : Rat := s * tempo * ticksPerBeat / 60
      let n := ticks s tempo ticksPerBeat
      |(n : Rat) - x| ≤ 1 / 2 ∧
      (|(n : Rat) - x| = 1 / 2 → Even n) ∧
      (∀ m : Int, x = m → n = m) ∧
      ticks (-s) tempo ticksPerBeat = -n ∧
      (tempo * ticksPerBeat ≠ 0 → ∀ k : Int,
        let n' := ticks (s + 60 * k / (tempo * ticksPerBeat)) tempo ticksPerBeat
        ((Odd k → ¬ IsHalfway x) → n' = n + k) ∧
        (Odd k → IsHalfway x →
          (n : Rat) < x ∧ n' = n + (k + 1) ∨ x < (n : Rat) ∧ n' = n + (k - 1)))) ∧
    (0 ≤ tempo * ticksPerBeat → Monotone fun s => ticks s tempo ticksPerBeat) ∧
    (tempo * ticksPerBeat < 0 → Antitone fun s => ticks s tempo ticksPerBeat) := by
  refine ⟨fun s => ?time, fun hspeed _ _ h => ticks_mono_of_mul hspeed h,
    fun hspeed _ _ h => ticks_anti_of_mul hspeed.le h⟩
  have hexact : s * tempo * ticksPerBeat / 60 = exactTicks s tempo ticksPerBeat := by
    simp only [exactTicks]
    ring
  dsimp only
  rw [hexact]
  obtain ⟨hnear, heven⟩ := isNearestEven_roundHalfEven (exactTicks s tempo ticksPerBeat)
  refine ⟨hnear, heven, fun m hm => ?whole, ticks_neg s tempo ticksPerBeat, fun hspeed k => ?later⟩
  case whole =>
    rw [ticks, hm, roundHalfEven_intCast]
  case later =>
    rw [ticks, ticks, exactTicks_add_whole s k hspeed]
    exact ⟨roundHalfEven_add_intCast, roundHalfEven_add_intCast_of_odd⟩

/-- Two and a half ticks are rounded to two, and one tick later to four. -/
theorem ticks_nearest_even_behind_half :
    (120 * 480 : Int) ≠ 0 ∧ Odd (1 : Int) ∧ IsHalfway (1 / 384 * 120 * 480 / 60) ∧
      ticks (1 / 384) 120 480 = 2 ∧
      ticks (1 / 384 + 60 * 1 / (120 * 480)) 120 480 = 2 + (1 + 1) := by
  have hhalf : IsHalfway (1 / 384 * 120 * 480 / 60) := ⟨2, by norm_num⟩
  have htwo : ticks (1 / 384) 120 480 = 2 := by cbv
  obtain ⟨-, -, -, -, hlater⟩ := (ticks_nearest_even 120 480).1 (1 / 384)
  have hside := (hlater (by decide) 1).2 odd_one hhalf
  rw [htwo] at hside
  refine ⟨by decide, odd_one, hhalf, htwo, ?_⟩
  rcases hside with ⟨-, hfour⟩ | ⟨habove, -⟩
  · push_cast at hfour
    exact hfour
  · norm_num at habove

end Ostinato.Midi

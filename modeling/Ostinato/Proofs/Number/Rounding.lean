import Mathlib.Algebra.Group.Int.Even
import Mathlib.Data.Rat.Floor
import Mathlib.Tactic.Linarith
import Ostinato.Number.Rounding

/-!
# Rounding to the nearest integer

`roundHalfEven` is never more than a half away from what it rounds and fixes the integers, so
numbers more than one unit apart are kept from collapsing. What it does with halves is said by
`IsNearestEven`, which goes with the order of numbers and so holds of one integer only. It makes
rounding monotone: times that stand in order are still in order once they are rounded.

Whatever moves numbers together with their nearest even integers commutes with rounding. A change of
sign does, and so does a shift by an even integer. A shift by an odd one does not, and
`roundHalfEven_add_intCast_of_odd` says where a half goes then.
-/

namespace Ostinato

/-- An integer that is nearest to a number; at equal distances it is the even one. -/
structure IsNearestEven (x : Rat) (n : Int) : Prop where
  near : |(n : Rat) - x| ≤ 1 / 2
  even : |(n : Rat) - x| = 1 / 2 → Even n

/-- A number half way between two integers. -/
def IsHalfway (x : Rat) : Prop := ∃ n : Int, x = n + 1 / 2

variable {x y : Rat} {k m n : Int}

/-! ## The error -/

/-- Rounding adds at most a half. -/
theorem roundHalfEven_le_add_half (x : Rat) : (roundHalfEven x : Rat) ≤ x + 1 / 2 := by
  have hlo := Rat.floor_le x
  simp only [roundHalfEven]
  split_ifs <;> push_cast <;> linarith

/-- Rounding takes off at most a half. -/
theorem sub_half_le_roundHalfEven (x : Rat) : x - 1 / 2 ≤ (roundHalfEven x : Rat) := by
  have hhi : x < (x.floor : Rat) + 1 := by
    have h := Rat.lt_floor_add_one x
    exact_mod_cast h
  simp only [roundHalfEven]
  split_ifs <;> push_cast <;> linarith

/-- Rounding changes a number by at most a half. -/
theorem abs_roundHalfEven_sub_le (x : Rat) : |(roundHalfEven x : Rat) - x| ≤ 1 / 2 := by
  have hle := roundHalfEven_le_add_half x
  have hge := sub_half_le_roundHalfEven x
  rw [abs_le]
  constructor <;> linarith

/-- An integer is its own rounding. -/
@[simp]
theorem roundHalfEven_intCast (n : Int) : roundHalfEven (n : Rat) = n := by
  simp [roundHalfEven]

/-- Numbers more than one apart never have the same rounding. -/
theorem roundHalfEven_lt_of_one_lt (h : 1 < y - x) : roundHalfEven x < roundHalfEven y := by
  have hx := roundHalfEven_le_add_half x
  have hy := sub_half_le_roundHalfEven y
  have hlt : (roundHalfEven x : Rat) < roundHalfEven y := by linarith
  exact_mod_cast hlt

/-! ## The nearest even integer -/

/-- The rounded number is a nearest integer, and even in the middle between two. -/
theorem isNearestEven_roundHalfEven (x : Rat) : IsNearestEven x (roundHalfEven x) := by
  refine ⟨abs_roundHalfEven_sub_le x, fun htie => ?_⟩
  have hlo := Rat.floor_le x
  have hhi : x < (x.floor : Rat) + 1 := by
    have h := Rat.lt_floor_add_one x
    exact_mod_cast h
  simp only [roundHalfEven] at htie ⊢
  split_ifs at htie ⊢ with hbelow habove heven
  · rw [abs_sub_comm, abs_of_nonneg (sub_nonneg.mpr hlo)] at htie
    exact absurd htie hbelow.ne
  · rw [abs_of_nonneg (by push_cast; linarith)] at htie
    push_cast at htie
    exact absurd habove (by linarith)
  · exact Int.even_iff.mpr heven
  · exact (Int.not_even_iff_odd.mp (mt Int.even_iff.mp heven)).add_one

/-- Two different integers are a whole unit apart, which is just what two halves can take. But then
they are neighbours, and one of them is odd. -/
theorem IsNearestEven.le (hm : IsNearestEven x m) (hn : IsNearestEven y n) (h : x ≤ y) :
    m ≤ n := by
  by_contra hlt
  obtain ⟨-, hhi⟩ := abs_le.mp hm.near
  obtain ⟨hlo, -⟩ := abs_le.mp hn.near
  have hcast : (n : Rat) + 1 ≤ m := by exact_mod_cast (not_le.mp hlt : n < m)
  have hm' : (m : Rat) - x = 1 / 2 := by linarith
  have hn' : (n : Rat) - y = -(1 / 2) := by linarith
  have hnext : m = n + 1 := by
    have hnext : (m : Rat) = n + 1 := by linarith
    exact_mod_cast hnext
  have hevenm := hm.even (by rw [hm', abs_of_pos (by norm_num)])
  have hevenn := hn.even (by rw [hn', abs_neg, abs_of_pos (by norm_num)])
  rw [hnext] at hevenm
  exact Int.not_even_iff_odd.mpr hevenn.add_one hevenm

/-- The rounded number is the only such integer. -/
theorem roundHalfEven_eq_iff : roundHalfEven x = n ↔ IsNearestEven x n := by
  have hround := isNearestEven_roundHalfEven x
  exact ⟨fun h => h ▸ hround, fun h => le_antisymm (hround.le h le_rfl) (h.le hround le_rfl)⟩

/-- Rounding keeps the order. -/
theorem roundHalfEven_mono (h : x ≤ y) : roundHalfEven x ≤ roundHalfEven y :=
  (isNearestEven_roundHalfEven x).le (isNearestEven_roundHalfEven y) h

/-- Neither direction is favoured. -/
theorem roundHalfEven_neg (x : Rat) : roundHalfEven (-x) = -roundHalfEven x := by
  obtain ⟨hnear, heven⟩ := isNearestEven_roundHalfEven x
  have hdistance : |((-roundHalfEven x : Int) : Rat) - -x| = |(roundHalfEven x : Rat) - x| := by
    rw [← abs_neg]
    push_cast
    ring_nf
  refine roundHalfEven_eq_iff.mpr ⟨hdistance ▸ hnear, fun htie => ?_⟩
  exact (heven (hdistance ▸ htie)).neg

/-! ## Halves -/

/-- Halves are the numbers that rounding moves by a half. -/
theorem IsNearestEven.halfway_iff (h : IsNearestEven x n) :
    IsHalfway x ↔ |(n : Rat) - x| = 1 / 2 := by
  constructor
  · rintro ⟨m, rfl⟩
    -- `n` is `m` or `m + 1`
    obtain ⟨hlo, hhi⟩ := abs_le.mp h.near
    have hle : n ≤ m + 1 := by
      have hcast : (n : Rat) ≤ (m + 1 : Int) := by push_cast; linarith
      exact_mod_cast hcast
    have hge : m ≤ n := by
      have hcast : (m : Rat) ≤ n := by linarith
      exact_mod_cast hcast
    obtain rfl | rfl : n = m ∨ n = m + 1 := by omega
    · rw [sub_add_cancel_left, abs_neg, abs_of_pos (by norm_num)]
    · push_cast
      rw [add_sub_add_left_eq_sub]
      norm_num
  · intro htie
    rcases (abs_eq (by norm_num)).mp htie with htie | htie
    · exact ⟨n - 1, by push_cast; linarith⟩
    · exact ⟨n, by linarith⟩

/-- Integers are added before or after rounding, unless an odd one meets a half. -/
theorem roundHalfEven_add_intCast (h : Odd k → ¬ IsHalfway x) :
    roundHalfEven (x + k) = roundHalfEven x + k := by
  have hround := isNearestEven_roundHalfEven x
  have hdistance : ((roundHalfEven x + k : Int) : Rat) - (x + k) = roundHalfEven x - x := by
    push_cast
    ring
  refine roundHalfEven_eq_iff.mpr ⟨hdistance ▸ hround.near, fun htie => ?_⟩
  rw [hdistance] at htie
  have hk : Even k := Int.not_odd_iff_even.mp fun hodd => h hodd (hround.halfway_iff.mpr htie)
  exact (hround.even htie).add hk

/-- Behind an odd shift the even neighbour of a half is on its other side. -/
theorem roundHalfEven_add_intCast_of_odd (hk : Odd k) (hx : IsHalfway x) :
    ((roundHalfEven x : Rat) < x ∧ roundHalfEven (x + k) = roundHalfEven x + (k + 1)) ∨
      (x < roundHalfEven x ∧ roundHalfEven (x + k) = roundHalfEven x + (k - 1)) := by
  have hround := isNearestEven_roundHalfEven x
  have htie := hround.halfway_iff.mp hx
  have heven := hround.even htie
  rcases (abs_eq (by norm_num)).mp htie with habove | hbelow
  · have hdistance : ((roundHalfEven x + (k - 1) : Int) : Rat) - (x + k) = -(1 / 2) := by
      push_cast
      linarith
    refine Or.inr ⟨by linarith, roundHalfEven_eq_iff.mpr ⟨?_, fun _ => ?_⟩⟩
    · rw [hdistance, abs_neg, abs_of_pos (by norm_num)]
    · exact heven.add (hk.sub_odd odd_one)
  · have hdistance : ((roundHalfEven x + (k + 1) : Int) : Rat) - (x + k) = 1 / 2 := by
      push_cast
      linarith
    refine Or.inl ⟨by linarith, roundHalfEven_eq_iff.mpr ⟨?_, fun _ => ?_⟩⟩
    · rw [hdistance, abs_of_pos (by norm_num)]
    · exact heven.add hk.add_one

end Ostinato

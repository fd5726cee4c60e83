import Mathlib.Algebra.Order.Ring.Rat
import Mathlib.Data.Rat.Cast.Order
import Mathlib.Tactic.Linarith
import Mathlib.Tactic.NormNum
import Mathlib.Tactic.Ring
import Ostinato.Part
import Ostinato.Proofs.Table

/-!
# The grid of note lengths

Every length of the table is a whole number of sixteenth notes, and a sixteenth is the shortest of
them. Sums of such lengths stay on that grid, so the clock of a part is always on it.
-/

namespace Ostinato

/-- A time that is a whole number of sixteenth notes. -/
def OnGrid (t : Rat) : Prop := ∃ n : Int, t = n / 4

/-- A length that some code of the table stands for. -/
def IsLength (d : Rat) : Prop := d ∈ durationTable.map Prod.snd

/-- Zero lies on the grid. -/
theorem onGrid_zero : OnGrid 0 := ⟨0, by norm_num⟩

/-- Sums stay on the grid. -/
theorem OnGrid.add {s t : Rat} (hs : OnGrid s) (ht : OnGrid t) : OnGrid (s + t) := by
  obtain ⟨m, rfl⟩ := hs
  obtain ⟨n, rfl⟩ := ht
  exact ⟨m + n, by push_cast; ring⟩

/-- Multiples stay on the grid. -/
theorem OnGrid.natCast_mul {t : Rat} (ht : OnGrid t) (n : Nat) : OnGrid (n * t) := by
  obtain ⟨m, rfl⟩ := ht
  exact ⟨n * m, by push_cast; ring⟩

/-- The six lengths of the table, in sixteenths. -/
theorem IsLength.cases {d : Rat} (h : IsLength d) :
    d = 8 / 4 ∨ d = 4 / 4 ∨ d = 6 / 4 ∨ d = 2 / 4 ∨ d = 3 / 4 ∨ d = 1 / 4 := by
  simp only [IsLength, durationTable, quarter, List.map_cons, List.map_nil, List.mem_cons,
    List.not_mem_nil, or_false] at h
  norm_num at h ⊢
  exact h

/-- A length of the table lies on the grid. -/
theorem IsLength.onGrid {d : Rat} (h : IsLength d) : OnGrid d := by
  rcases h.cases with rfl | rfl | rfl | rfl | rfl | rfl
  exacts [⟨8, by norm_num⟩, ⟨4, by norm_num⟩, ⟨6, by norm_num⟩, ⟨2, by norm_num⟩,
    ⟨3, by norm_num⟩, ⟨1, by norm_num⟩]

/-- No length is shorter than a sixteenth. -/
theorem IsLength.sixteenth_le {d : Rat} (h : IsLength d) : 1 / 4 ≤ d := by
  rcases h.cases with rfl | rfl | rfl | rfl | rfl | rfl <;> norm_num

/-- No length is longer than a half note. -/
theorem IsLength.le_half_note {d : Rat} (h : IsLength d) : d ≤ 2 := by
  rcases h.cases with rfl | rfl | rfl | rfl | rfl | rfl <;> norm_num

/-- A length of the table is positive. -/
theorem IsLength.pos {d : Rat} (h : IsLength d) : 0 < d :=
  lt_of_lt_of_le (by norm_num) h.sixteenth_le

/-- A slot lasts a length of the table. -/
theorem Slot.isLength_of_length {s : Slot} {d : Rat} (h : s.length = .ok d) : IsLength d := by
  rw [Slot.length] at h
  split at h
  next length hfound =>
    cases h
    exact List.mem_map_of_mem (mem_of_lookup hfound)
  next => cases h

end Ostinato

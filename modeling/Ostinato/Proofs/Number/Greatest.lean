import Mathlib.Order.MinMax

/-!
# The greatest of some numbers

The greatest of no numbers is zero. Of numbers that are not negative it can be taken in steps, list
by list, and a monotone function that leaves zero alone can be applied before or after.
-/

namespace Ostinato

variable {α β : Type} [LinearOrder α] [Zero α] [LinearOrder β] [Zero β] {xs : List α} {x : α}

/-- The greatest of some numbers; zero if there are none. -/
def greatest (xs : List α) : α := xs.max?.getD 0

/-- The greatest of no numbers is zero. -/
@[simp]
theorem greatest_nil : greatest ([] : List α) = 0 := rfl

/-- What is in a list and nowhere exceeded is its greatest. -/
theorem greatest_of_mem (hmem : x ∈ xs) (hle : ∀ y ∈ xs, y ≤ x) : greatest xs = x := by
  rw [greatest, List.max?_eq_some_iff.mpr ⟨hmem, hle⟩]
  rfl

/-- The greatest of one number is that number. -/
@[simp]
theorem greatest_singleton (x : α) : greatest [x] = x := rfl

/-- The greatest of some numbers is one of them, and none is greater. -/
theorem greatest_mem_and_le (h : xs ≠ []) : greatest xs ∈ xs ∧ ∀ y ∈ xs, y ≤ greatest xs := by
  obtain ⟨x, hx⟩ := Option.ne_none_iff_exists'.mp fun hnone => h (List.max?_eq_none_iff.mp hnone)
  obtain ⟨hmem, hle⟩ := List.max?_eq_some_iff.mp hx
  rw [greatest_of_mem hmem hle]
  exact ⟨hmem, hle⟩

/-- The greatest of some numbers is one of them. -/
theorem greatest_mem (h : xs ≠ []) : greatest xs ∈ xs := (greatest_mem_and_le h).1

/-- No number is greater than the greatest. -/
theorem le_greatest (h : x ∈ xs) : x ≤ greatest xs :=
  (greatest_mem_and_le (List.ne_nil_of_mem h)).2 x h

/-- The greatest is not negative if no number is. -/
theorem greatest_nonneg (h : ∀ x ∈ xs, 0 ≤ x) : 0 ≤ greatest xs := by
  by_cases hxs : xs = []
  · rw [hxs, greatest_nil]
  · exact h _ (greatest_mem hxs)

/-- Zero in front does not change the greatest of numbers that are not negative. -/
theorem greatest_zero_cons (h : ∀ x ∈ xs, 0 ≤ x) : greatest (0 :: xs) = greatest xs := by
  by_cases hxs : xs = []
  · rw [hxs, greatest_singleton, greatest_nil]
  · refine greatest_of_mem (List.mem_cons_of_mem 0 (greatest_mem hxs)) fun x hx => ?_
    rcases List.mem_cons.mp hx with rfl | hx
    · exact greatest_nonneg h
    · exact le_greatest hx

/-- The greatest of some images is the image of the greatest. -/
theorem greatest_map {f : α → β} (hf : Monotone f) (hzero : f 0 = 0) (xs : List α) :
    greatest (xs.map f) = f (greatest xs) := by
  by_cases hxs : xs = []
  · rw [hxs, List.map_nil, greatest_nil, greatest_nil, hzero]
  · refine greatest_of_mem (List.mem_map_of_mem (greatest_mem hxs)) fun y hy => ?_
    obtain ⟨x, hx, rfl⟩ := List.mem_map.mp hy
    exact hf (le_greatest hx)

/-- The greatest of several lists is the greatest of what is greatest in each. An empty list does
not count, for its zero exceeds nothing. -/
theorem greatest_flatMap {γ : Type} {f : γ → List α} {cs : List γ}
    (h : ∀ c ∈ cs, ∀ x ∈ f c, 0 ≤ x) :
    greatest (cs.flatMap f) = greatest (cs.map fun c => greatest (f c)) := by
  by_cases hnone : cs.flatMap f = []
  · have hzero : ∀ y ∈ cs.map fun c => greatest (f c), y = 0 := by
      intro y hy
      obtain ⟨c, hc, rfl⟩ := List.mem_map.mp hy
      rw [List.flatMap_eq_nil_iff.mp hnone c hc, greatest_nil]
    rw [hnone, greatest_nil]
    by_cases hcs : (cs.map fun c => greatest (f c)) = []
    · rw [hcs, greatest_nil]
    · exact (hzero _ (greatest_mem hcs)).symm
  · obtain ⟨c, hc, hmem⟩ := List.mem_flatMap.mp (greatest_mem hnone)
    symm
    refine greatest_of_mem ?attained fun y hy => ?below
    case attained =>
      refine List.mem_map.mpr ⟨c, hc, greatest_of_mem hmem fun x hx => ?_⟩
      exact le_greatest (List.mem_flatMap.mpr ⟨c, hc, hx⟩)
    case below =>
      obtain ⟨c', hc', rfl⟩ := List.mem_map.mp hy
      by_cases hnil : f c' = []
      · rw [hnil, greatest_nil]
        exact h c hc _ hmem
      · exact le_greatest (List.mem_flatMap.mpr ⟨c', hc', greatest_mem hnil⟩)

end Ostinato

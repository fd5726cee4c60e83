import Mathlib.Algebra.Order.Ring.Rat
import Mathlib.Tactic.SplitIfs
import Ostinato.Score.Basic

/-!
# How long a score lasts

The duration of a score is found by going through its notes once. `IsLatest` says what is found: the
latest of their ends, or zero if there are none. Which notes there are decides it alone, so it does
not matter on which tracks they are or in which order.
-/

namespace Ostinato

/-- The latest end of some notes; zero if there are none. -/
structure IsLatest (notes : List NoteEvent) (time : Rat) : Prop where
  le : ∀ n ∈ notes, n.stop ≤ time
  attained : notes ≠ [] → ∃ n ∈ notes, n.stop = time
  silent : notes = [] → time = 0

variable {notes notes' : List NoteEvent} {time time' : Rat}

/-- The latest stop does not depend on the order of the notes. -/
theorem IsLatest.of_perm (h : IsLatest notes time) (hperm : notes.Perm notes') :
    IsLatest notes' time := by
  refine ⟨fun n hn => h.le n (hperm.mem_iff.mpr hn), fun hne => ?_, fun hnil => ?_⟩
  · obtain ⟨n, hn, hstop⟩ := h.attained fun hnil => hne (hnil ▸ hperm).nil_eq.symm
    exact ⟨n, hperm.mem_iff.mp hn, hstop⟩
  · exact h.silent (hnil ▸ hperm).eq_nil

/-- More notes that end after zero never end earlier. -/
theorem IsLatest.mono (h : IsLatest notes time) (h' : IsLatest notes' time')
    (hsubset : notes ⊆ notes') (hpos : ∀ n ∈ notes', 0 ≤ n.stop) : time ≤ time' := by
  by_cases hnil : notes = []
  · rw [h.silent hnil]
    by_cases hnil' : notes' = []
    · exact (h'.silent hnil').ge
    · obtain ⟨n, hn, hstop⟩ := h'.attained hnil'
      exact hstop ▸ hpos n hn
  · obtain ⟨n, hn, hstop⟩ := h.attained hnil
    exact hstop ▸ h'.le n (hsubset hn)

/-- A valid note does not stop before zero. -/
theorem NoteEvent.Valid.stop_nonneg {n : NoteEvent} (h : n.Valid) : 0 ≤ n.stop :=
  add_nonneg h.time_nonneg h.duration_pos.le

/-- The later of two times is the greater one. -/
theorem Score.later_eq_max (p q : Rat) : Score.later p q = max p q :=
  (max_def p q).symm

/-- A score lasts until the latest end of its notes. -/
theorem Score.isLatest_duration (s : Score) : IsLatest s.notes s.duration := by
  rw [Score.duration]
  cases hnotes : s.notes with
  | nil => exact ⟨by simp, fun h => absurd rfl h, fun _ => rfl⟩
  | cons n ns =>
    have hmax : ((n :: ns).map NoteEvent.stop).max?
        = some ((ns.map NoteEvent.stop).foldl Score.later n.stop) := by
      simp only [List.map_cons, List.max?_cons', funext₂ Score.later_eq_max]
    obtain ⟨hmem, hle⟩ := List.max?_eq_some_iff.mp hmax
    obtain ⟨n', hn', hstop⟩ := List.mem_map.mp hmem
    exact ⟨fun n' hn' => hle _ (List.mem_map_of_mem hn'), fun _ => ⟨n', hn', hstop⟩,
      fun h => nomatch h⟩

end Ostinato

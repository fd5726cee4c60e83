import Mathlib.Tactic.ByContra
import Ostinato.Duration
import Ostinato.Proofs.Outcome

/-!
# Simple values

A simple value is made of null, booleans, integers, doubles, texts, lists and mappings, which may
stand in the value itself or in the pool. It has a text whenever it has no more levels than there is
room for, and so can stand wherever a duration code is asked for; if it has more, it is nested too
deeply (`Simple.quotedWithin_eq_error`). The levels are those of the value written out: what is
referred to counts as what stands there, so a chain of references is as deep as the nested lists
that it is short for.
-/

namespace Ostinato

namespace Value

/-- A value made of null, booleans, integers that are not too long, doubles, texts, lists and
mappings, in at most some number of levels: a list or a mapping has one level more than there are in
it, and all else has one. -/
inductive Simple (pool : Pool) : Nat → Value → Prop
  | null {levels} : Simple pool (levels + 1) .null
  | bool {levels} (b : Bool) : Simple pool (levels + 1) (.bool b)
  | int {levels} {i : Int} (h : i.natAbs < Nat.pow 10 Text.maxDigits) :
    Simple pool (levels + 1) (.int i)
  | float {levels} (x : Binary64) : Simple pool (levels + 1) (.float x)
  | text {levels} (t : Text) : Simple pool (levels + 1) (.text t)
  | list {levels} {v : Value} {items : List Value} (hv : pool.resolve v = .list items)
    (h : ∀ w ∈ items, Simple pool levels w) : Simple pool (levels + 1) v
  | dict {levels} {v : Value} {entries : List (Value × Value)}
    (hv : pool.resolve v = .dict entries) (hkeys : ∀ e ∈ entries, Simple pool levels e.1)
    (hvalues : ∀ e ∈ entries, Simple pool levels e.2) : Simple pool (levels + 1) v

variable {pool pool' : Pool} {levels room : Nat} {v : Value}

/-! ## Parts -/

/-- A value with few levels is one with at most more. -/
theorem Simple.succ (h : Simple pool levels v) : Simple pool (levels + 1) v := by
  induction h with
  | null => exact .null
  | bool b => exact .bool b
  | int h => exact .int h
  | float x => exact .float x
  | text t => exact .text t
  | list hv _ ih => exact .list hv ih
  | dict hv _ _ hkeys hvalues => exact .dict hv hkeys hvalues

/-- Only the collections of a pool count for the levels of a value, and not its room. -/
theorem Simple.congr (h : Simple pool levels v) (hpool : pool'.collections = pool.collections) :
    Simple pool' levels v := by
  have hresolve : ∀ w, pool'.resolve w = pool.resolve w := fun w => by
    cases w <;> simp [Pool.resolve, Pool.get, hpool]
  induction h with
  | null => exact .null
  | bool b => exact .bool b
  | int h => exact .int h
  | float x => exact .float x
  | text t => exact .text t
  | list hv _ ih => exact .list ((hresolve _).trans hv) ih
  | dict hv _ _ hkeys hvalues => exact .dict ((hresolve _).trans hv) hkeys hvalues

/-- What is referred to is a collection, which is referred to by nothing but itself. -/
theorem resolve_resolve_of_list {items : List Value} (h : pool.resolve v = .list items) :
    pool.resolve (pool.resolve v) = .list items := by
  rw [h]
  rfl

/-- A mapping that is referred to is one, too. -/
theorem resolve_resolve_of_dict {entries : List (Value × Value)}
    (h : pool.resolve v = .dict entries) : pool.resolve (pool.resolve v) = .dict entries := by
  rw [h]
  rfl

/-- What a simple value refers to is as simple. -/
theorem Simple.resolve (h : Simple pool levels v) : Simple pool levels (pool.resolve v) := by
  cases h with
  | null => exact .null
  | bool b => exact .bool b
  | int h => exact .int h
  | float x => exact .float x
  | text t => exact .text t
  | list hv h => exact .list (resolve_resolve_of_list hv) h
  | dict hv hkeys hvalues => exact .dict (resolve_resolve_of_dict hv) hkeys hvalues

/-- The elements of a simple list are simple. -/
theorem Simple.of_mem_list {items : List Value} (h : Simple pool levels (.list items)) {w : Value}
    (hw : w ∈ items) : Simple pool levels w := by
  cases h with
  | list hv h =>
    cases hv
    exact (h w hw).succ
  | dict hv => cases hv

/-- What is found under a name stands in an entry. -/
theorem exists_of_lookup {entries : List (Value × Value)} {name : Text} {w : Value}
    (h : lookup name entries = some w) : ∃ e ∈ entries, e.2 = w := by
  fun_induction lookup name entries with
  | case1 => cases h
  | case2 value rest =>
    cases h
    exact ⟨_, List.mem_cons_self, rfl⟩
  | case3 t value rest _ ih =>
    obtain ⟨e, he, hvalue⟩ := ih h
    exact ⟨e, List.mem_cons_of_mem _ he, hvalue⟩
  | case4 e rest _ ih =>
    obtain ⟨e', he', hvalue⟩ := ih h
    exact ⟨e', List.mem_cons_of_mem e he', hvalue⟩

/-- What is found in a simple mapping is simple. -/
theorem Simple.of_lookup {entries : List (Value × Value)} (h : Simple pool levels (.dict entries))
    {name : Text} {w : Value} (hw : lookup name entries = some w) : Simple pool levels w := by
  cases h with
  | list hv => cases hv
  | dict hv _ hvalues =>
    cases hv
    obtain ⟨e, he, rfl⟩ := exists_of_lookup hw
    exact (hvalues e he).succ

/-! ## Texts -/

/-- A value is written as what it refers to, inside one collection more, or it is inside itself and
its mark is written. -/
theorem quotedWithin_succ (pool : Pool) (room : Nat) (path : List Nat) (v : Value) :
    (∃ n ∈ path, v = .shared n ∧
      v.quotedWithin pool (room + 1) path = .ok (ellipsis (pool.get n))) ∨
    ∃ path' : List Nat, (∀ n ∈ path', n ∈ path ∨ v = .shared n) ∧
      v.quotedWithin pool (room + 1) path
        = (pool.resolve v).quotedWith (quotedWithin pool room path') room := by
  cases v with
  | shared n =>
    rw [quotedWithin]
    by_cases hn : n ∈ path
    · rw [if_pos (List.contains_iff_mem.mpr hn)]
      exact .inl ⟨n, hn, rfl, rfl⟩
    · rw [if_neg (mt List.contains_iff_mem.mp hn)]
      refine .inr ⟨n :: path, fun m hm => ?_, rfl⟩
      obtain rfl | hmem := List.mem_cons.mp hm
      · exact .inr rfl
      · exact .inl hmem
  | _ => exact .inr ⟨path, fun _ hn => .inl hn, rfl⟩

/-- An entry has a text if its key and its value have one. -/
theorem exists_quotedEntry {inner : Value → Except Unwritable (List Char)} {e : Value × Value}
    (hkey : ∃ cs, inner e.1 = .ok cs) (hvalue : ∃ cs, inner e.2 = .ok cs) :
    ∃ cs, quotedEntry inner e = .ok cs := by
  obtain ⟨key, hkey⟩ := hkey
  obtain ⟨value, hvalue⟩ := hvalue
  rw [quotedEntry, hkey, hvalue]
  exact ⟨_, rfl⟩

/-- A simple value with no more levels than there is room for has an unambiguous text, inside
whatever collections it stands. -/
theorem Simple.exists_quotedWithin (h : Simple pool room v) (path : List Nat) :
    ∃ cs, v.quotedWithin pool room path = .ok cs := by
  induction h generalizing path with
  | null => exact ⟨_, rfl⟩
  | bool b => cases b <;> exact ⟨_, rfl⟩
  | @int room i h =>
    refine ⟨integerChars i, ?_⟩
    rw [quotedWithin, quotedWith, writtenInteger, if_neg (Nat.not_le.mpr h)]
    exact nofun
  | float x => exact ⟨_, rfl⟩
  | text t => exact ⟨_, rfl⟩
  | @list room v items hv _ ih =>
    obtain ⟨n, -, -, hmark⟩ | ⟨path', -, hwritten⟩ := quotedWithin_succ pool room path v
    · exact ⟨_, hmark⟩
    · obtain ⟨pieces, hpieces⟩ := exists_mapM_iff.mpr fun w hw => ih w hw path'
      rw [hwritten, hv, quotedWith, hpieces]
      exact ⟨_, rfl⟩
  | @dict room v entries hv _ _ hkeys hvalues =>
    obtain ⟨n, -, -, hmark⟩ | ⟨path', -, hwritten⟩ := quotedWithin_succ pool room path v
    · exact ⟨_, hmark⟩
    · obtain ⟨pieces, hpieces⟩ := exists_mapM_iff.mpr fun e he =>
        exists_quotedEntry (hkeys e he path') (hvalues e he path')
      rw [hwritten, hv, quotedWith, hpieces]
      exact ⟨_, rfl⟩

/-- An entry has the fault of its key, or that of its value if its key has none. -/
theorem quotedEntry_eq_error_iff {inner : Value → Except Unwritable (List Char)}
    {e : Value × Value} {reason : Unwritable} :
    quotedEntry inner e = .error reason ↔
      inner e.1 = .error reason ∨ (∃ cs, inner e.1 = .ok cs) ∧ inner e.2 = .error reason := by
  rw [quotedEntry]
  cases inner e.1 with
  | error fault => simp [bind, Except.bind]
  | ok key => cases inner e.2 <;> simp [bind, Except.bind, pure, Except.pure]

section TooDeep

variable {inner : Value → Except Unwritable (List Char)}

/-- A value has no fault but that it is nested too deeply, if it is that without room and has a text
with it. -/
theorem eq_tooDeep_of_error (hfine : Simple pool room v → ∃ cs, inner v = .ok cs)
    (hfault : ¬ Simple pool room v → inner v = .error .tooDeep) {reason : Unwritable}
    (hreason : inner v = .error reason) : reason = .tooDeep := by
  by_cases hroom : Simple pool room v
  · obtain ⟨cs, hcs⟩ := hfine hroom
    rw [hcs] at hreason
    cases hreason
  · rw [hfault hroom] at hreason
    cases hreason
    rfl

/-- A value with all its levels is nested too deeply, where the values inside it are if there is no
room for them, and have texts if there is. -/
theorem Simple.quotedWith_eq_error (h : Simple pool (levels + 1) v)
    (hdeep : ¬ Simple pool (room + 1) v)
    (hfine : ∀ w, Simple pool room w → ∃ cs, inner w = .ok cs)
    (hfault : ∀ w, Simple pool levels w → ¬ Simple pool room w → inner w = .error .tooDeep) :
    (pool.resolve v).quotedWith inner room = .error .tooDeep := by
  have honly : ∀ w, Simple pool levels w → ∀ reason, inner w = .error reason → reason = .tooDeep :=
    fun w hw _ => eq_tooDeep_of_error (hfine w) (hfault w hw)
  cases h with
  | null => exact absurd .null hdeep
  | bool b => exact absurd (.bool b) hdeep
  | int hi => exact absurd (.int hi) hdeep
  | float x => exact absurd (.float x) hdeep
  | text t => exact absurd (.text t) hdeep
  | @list _ _ items hv hitems =>
    -- with room for all elements there would be room for the list
    obtain ⟨w, hw, hroom⟩ : ∃ w ∈ items, ¬ Simple pool room w := by
      by_contra! hall
      exact hdeep (.list hv hall)
    have hpieces := mapM_eq_error_of_mem (fun w hw => honly w (hitems w hw))
      ⟨w, hw, hfault w (hitems w hw) hroom⟩
    rw [hv, quotedWith, hpieces]
    rfl
  | @dict _ _ entries hv hkeys hvalues =>
    obtain ⟨e, he, hroom⟩ : ∃ e ∈ entries, Simple pool room e.1 → ¬ Simple pool room e.2 := by
      by_contra! hall
      exact hdeep (.dict hv (fun e he => (hall e he).1) fun e he => (hall e he).2)
    have hentry : quotedEntry inner e = .error .tooDeep := by
      rw [quotedEntry_eq_error_iff]
      by_cases hkey : Simple pool room e.1
      · exact .inr ⟨hfine e.1 hkey, hfault e.2 (hvalues e he) (hroom hkey)⟩
      · exact .inl (hfault e.1 (hkeys e he) hkey)
    have honly' : ∀ e ∈ entries, ∀ reason, quotedEntry inner e = .error reason →
        reason = .tooDeep := by
      intro e he reason hreason
      obtain hkey | ⟨-, hvalue⟩ := quotedEntry_eq_error_iff.mp hreason
      · exact honly e.1 (hkeys e he) reason hkey
      · exact honly e.2 (hvalues e he) reason hvalue
    rw [hv, quotedWith, mapM_eq_error_of_mem honly' ⟨e, he, hentry⟩]
    rfl

end TooDeep

/-- A simple value with more levels than there is room for is nested too deeply. It is so wherever
it stands, unless that is inside itself. The argument goes by the levels: where a value has all of
them, what it refers to stands in nothing that has fewer. -/
theorem Simple.quotedWithin_eq_error (h : Simple pool levels v) (hdeep : ¬ Simple pool room v)
    {path : List Nat} (hpath : ∀ n ∈ path, ¬ Simple pool levels (.shared n)) :
    v.quotedWithin pool room path = .error .tooDeep := by
  induction levels generalizing v room path with
  | zero => cases h
  | succ levels ih =>
    cases room with
    | zero => rw [quotedWithin]
    | succ room =>
      by_cases hless : Simple pool levels v
      · exact ih hless hdeep fun n hn hsimple => hpath n hn hsimple.succ
      obtain ⟨n, hn, rfl, -⟩ | ⟨path', hpath', hwritten⟩ := quotedWithin_succ pool room path v
      · exact absurd h (hpath n hn)
      -- a reference that is met here has all the levels, so nothing inside refers to it
      have hinside : ∀ n ∈ path', ¬ Simple pool levels (.shared n) := by
        intro n hn hsimple
        obtain hmem | rfl := hpath' n hn
        · exact hpath n hmem hsimple.succ
        · exact hless hsimple
      rw [hwritten]
      exact h.quotedWith_eq_error hdeep (fun w hw => hw.exists_quotedWithin path')
        fun w hw hroom => ih hw hroom hinside

/-! ## Codes -/

/-- What is no text, date or moment is taken as the code that its unambiguous text is. -/
theorem durationCode_of_simple (h : Simple pool levels v) :
    (∃ t, v = .text t) ∨
      durationCode pool v
        = ((v.quotedWithin pool (pool.room + 1) []).map String.ofList).map Text.ofString := by
  cases v with
  | text t => exact .inl ⟨t, rfl⟩
  | date | moment => cases h with | list hv | dict hv => cases hv
  | _ => exact .inr rfl

/-- A simple value spells a duration code if there is room for its text. -/
theorem Simple.exists_durationCode (h : Simple pool (pool.room + 1) v) :
    ∃ code, durationCode pool v = .ok code := by
  obtain ⟨t, rfl⟩ | hcode := durationCode_of_simple h
  · exact ⟨t, rfl⟩
  · obtain ⟨cs, hcs⟩ := h.exists_quotedWithin []
    rw [hcode, hcs]
    exact ⟨_, rfl⟩

/-- If there is no room for its text, a simple value spells no code, for it is nested too deeply. -/
theorem Simple.durationCode_eq_error (h : Simple pool levels v)
    (hdeep : ¬ Simple pool (pool.room + 1) v) : durationCode pool v = .error .tooDeep := by
  obtain ⟨t, rfl⟩ | hcode := durationCode_of_simple h
  · exact absurd (.text t) hdeep
  · rw [hcode, h.quotedWithin_eq_error hdeep fun n hn => absurd hn List.not_mem_nil]
    rfl

/-! ## Nested lists -/

/-- An empty list inside a number of lists. -/
def nested : Nat → Value
  | 0 => .list []
  | n + 1 => .list [nested n]

/-- Each of the nested lists is a level. -/
theorem simple_nested_iff {n : Nat} : Simple pool levels (nested n) ↔ n < levels := by
  induction n generalizing levels with
  | zero =>
    cases levels with
    | zero => exact iff_of_false nofun (Nat.lt_irrefl 0)
    | succ levels => exact iff_of_true (.list rfl (by simp)) (Nat.succ_pos levels)
  | succ n ih =>
    cases levels with
    | zero => exact iff_of_false nofun (Nat.not_lt_zero _)
    | succ levels =>
      rw [Nat.add_lt_add_iff_right, ← ih]
      constructor
      · intro h
        cases h with
        | list hv hitems =>
          cases hv
          exact hitems _ List.mem_cons_self
        | dict hv => cases hv
      · exact fun h => .list rfl (List.forall_mem_singleton.mpr h)

end Value

end Ostinato

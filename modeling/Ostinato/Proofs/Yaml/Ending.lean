import Ostinato.Yaml.Token.Basic

/-!
# How a reading may end

A reading ends with a result or with a fault. `Ends` says of a result that it is good, and of a
scalar fault that there is a reason for it; all other faults are of no interest. `Keeps` says the
same of a step with a state, of which an invariant stays true. Both are put together along the
steps of a reading.
-/

namespace Ostinato.Yaml

variable {α β σ : Type} {good : α → Prop} {good' : β → Prop} {bad : Prop}

/-! ## Readings without a state -/

/-- A good result, a scalar fault for which there is a reason, or another fault. -/
def Ends (good : α → Prop) (bad : Prop) : Except Fault α → Prop
  | .ok a => good a
  | .error (.scalar _) => bad
  | .error _ => True

/-- Faults that are not those of a scalar. -/
def Fault.IsNoScalar (fault : Fault) : Prop := ∀ f, fault ≠ .scalar f

/-- To end in a fault that is none of a scalar is allowed. -/
theorem Ends.error {fault : Fault} (h : fault.IsNoScalar) : Ends good bad (.error fault) := by
  cases fault with
  | scalar f => exact absurd rfl (h f)
  | encoding | document reason | ended | tooDeep => exact trivial

/-- To end in the fault of a scalar is allowed just if that is. -/
theorem ends_scalar {f : ScalarFault} : Ends good bad (.error (.scalar f)) ↔ bad := Iff.rfl

/-- To refuse at some place is allowed. -/
theorem ends_refuseAt {rest : List Char} {reason : String} :
    Ends good bad (refuseAt rest reason) := by
  unfold refuseAt
  split <;> exact trivial

/-- What ends well ends well where more is allowed. -/
theorem Ends.mono {good₂ : α → Prop} {bad₂ : Prop} {x : Except Fault α} (h : Ends good bad x)
    (hgood : ∀ a, good a → good₂ a) (hbad : bad → bad₂) : Ends good₂ bad₂ x := by
  cases x with
  | ok a => exact hgood a h
  | error fault =>
    cases fault with
    | scalar f => exact hbad h
    | encoding | document reason | ended | tooDeep => exact trivial

/-- Another reason for the same faults. -/
theorem Ends.because {bad₂ : Prop} {x : Except Fault α} (h : Ends good bad x)
    (hbad : bad → bad₂) : Ends good bad₂ x :=
  h.mono (fun _ ha => ha) hbad

/-- One reading after another. -/
theorem Ends.bind {x : Except Fault α} {f : α → Except Fault β} (h : Ends good bad x)
    (hf : ∀ a, good a → Ends good' bad (f a)) : Ends good' bad (x >>= f) := by
  cases x with
  | ok a => exact hf a h
  | error fault =>
    cases fault with
    | scalar f => exact h
    | encoding | document reason | ended | tooDeep => exact trivial

/-- Two steps end well one after the other if each of them does. -/
theorem Ends.andThen {x : Except Fault α} {f : α → Except Fault β}
    (h : Ends (fun _ => True) bad x) (hf : ∀ a, Ends good' bad (f a)) : Ends good' bad (x >>= f) :=
  h.bind fun a _ => hf a

/-- A choice ends well if each of its branches does. -/
theorem Ends.ite {c : Prop} [Decidable c] {x y : Except Fault α} (hx : c → Ends good bad x)
    (hy : ¬ c → Ends good bad y) : Ends good bad (if c then x else y) := by
  split
  next hc => exact hx hc
  next hc => exact hy hc

/-- A change of the result ends well if the changed result is good. -/
theorem Ends.map {x : Except Fault α} {f : α → β} (h : Ends (fun a => good' (f a)) bad x) :
    Ends good' bad (x.map f) := by
  cases x with
  | ok a => exact h
  | error fault =>
    cases fault with
    | scalar f => exact h
    | encoding | document reason | ended | tooDeep => exact trivial

/-- Steps for all elements end well if each of them does. -/
theorem Ends.mapM {xs : List α} {f : α → Except Fault β}
    (h : ∀ x ∈ xs, Ends (fun _ => True) bad (f x)) : Ends (fun _ => True) bad (xs.mapM f) := by
  induction xs with
  | nil => exact trivial
  | cons x xs ih =>
    rw [List.mapM_cons]
    refine (h x List.mem_cons_self).bind fun y _ => ?_
    exact (ih fun x' hx' => h x' (List.mem_cons_of_mem x hx')).bind fun _ _ => trivial

/-- A fold ends well if each of its steps keeps what is good. -/
theorem Ends.foldlM {xs : List α} {f : β → α → Except Fault β} {b : β} (hb : good' b)
    (h : ∀ b, good' b → ∀ x ∈ xs, Ends good' bad (f b x)) : Ends good' bad (xs.foldlM f b) := by
  induction xs generalizing b with
  | nil => exact hb
  | cons x xs ih =>
    -- what the first step makes is good, so the rest starts from there
    rw [List.foldlM_cons]
    refine (h b hb x List.mem_cons_self).bind fun next hnext => ?_
    exact ih hnext fun b' hb' x' hx' => h b' hb' x' (List.mem_cons_of_mem x hx')

/-- A scalar fault has its reason. -/
theorem Ends.reason {x : Except Fault α} (h : Ends good bad x) {f : ScalarFault}
    (hx : x = .error (.scalar f)) : bad := by
  rw [hx] at h
  exact h

/-- Where there can be no reason, no fault is that of a scalar. -/
theorem Ends.isNoScalar {fault : Fault} (h : Ends good False (.error fault)) :
    fault.IsNoScalar := by
  rintro f rfl
  exact h

/-- Not to have succeeded may be reason enough. -/
theorem ends_of_not_ok {x : Except Fault α} (h : (¬ ∃ a, x = .ok a) → bad) :
    Ends (fun _ => True) bad x := by
  cases x with
  | ok a => exact trivial
  | error fault =>
    cases fault with
    | scalar f => exact h (by simp)
    | encoding | document reason | ended | tooDeep => exact trivial

/-- The result of what ends well is good. -/
theorem Ends.result {x : Except Fault α} (h : Ends good bad x) {a : α} (hx : x = .ok a) :
    good a := by
  rw [hx] at h
  exact h

/-! ## Readings with a state -/

/-- A step that keeps an invariant. Its result is good, its scalar faults have a reason. -/
def Keeps (inv : σ → Prop) (good : α → Prop) (bad : Prop) (m : StateT σ (Except Fault) α) : Prop :=
  ∀ s, inv s → Ends (fun r => good r.1 ∧ inv r.2) bad (m s)

variable {inv : σ → Prop}

/-- To give a good result keeps all. -/
theorem Keeps.pure {a : α} (h : good a) :
    Keeps inv good bad (Pure.pure a : StateT σ (Except Fault) α) :=
  fun _ hs => ⟨h, hs⟩

/-- A sequence keeps what each of its parts keeps, the second given the result of the first. -/
theorem Keeps.bind {m : StateT σ (Except Fault) α} {f : α → StateT σ (Except Fault) β}
    (h : Keeps inv good bad m) (hf : ∀ a, good a → Keeps inv good' bad (f a)) :
    Keeps inv good' bad (m >>= f) :=
  fun s hs => Ends.bind (h s hs) fun r hr => hf r.1 hr.1 r.2 hr.2

/-- A sequence keeps what each of its parts keeps. -/
theorem Keeps.andThen {m : StateT σ (Except Fault) α} {f : α → StateT σ (Except Fault) β}
    (h : Keeps inv (fun _ => True) bad m) (hf : ∀ a, Keeps inv good' bad (f a)) :
    Keeps inv good' bad (m >>= f) :=
  h.bind fun a _ => hf a

/-- A choice keeps what each of its branches keeps. -/
theorem Keeps.ite {c : Prop} [Decidable c] {m m' : StateT σ (Except Fault) α}
    (h : c → Keeps inv good bad m) (h' : ¬ c → Keeps inv good bad m') :
    Keeps inv good bad (if c then m else m') := by
  split
  next hc => exact h hc
  next hc => exact h' hc

/-- What gives a good result gives one that is good in a weaker sense. -/
theorem Keeps.mono {good₂ : α → Prop} {m : StateT σ (Except Fault) α} (h : Keeps inv good bad m)
    (hgood : ∀ a, good a → good₂ a) : Keeps inv good₂ bad m :=
  fun s hs => (h s hs).mono (fun _ hr => ⟨hgood _ hr.1, hr.2⟩) id

/-- The state that is read satisfies the invariant. -/
theorem keeps_get : Keeps inv inv bad (get : StateT σ (Except Fault) σ) := fun _ hs => ⟨hs, hs⟩

/-- To set a state that satisfies the invariant keeps it. -/
theorem keeps_set {s : σ} (h : inv s) :
    Keeps inv (fun _ => True) bad (set s : StateT σ (Except Fault) PUnit) :=
  fun _ _ => ⟨trivial, h⟩

/-- A change of the state that respects the invariant keeps it. -/
theorem keeps_modify {f : σ → σ} (h : ∀ s, inv s → inv (f s)) :
    Keeps inv (fun _ => True) bad (modify f : StateT σ (Except Fault) PUnit) :=
  fun s hs => ⟨trivial, h s hs⟩

/-- To throw a fault that is none of a scalar is allowed. -/
theorem keeps_throw {fault : Fault} (h : fault.IsNoScalar) :
    Keeps inv good bad (throw fault : StateT σ (Except Fault) α) :=
  fun _ _ => Ends.error h

/-- To throw the fault of a scalar is allowed just where that is. -/
theorem keeps_throw_scalar {f : ScalarFault} (h : bad) :
    Keeps inv good bad (throw (.scalar f) : StateT σ (Except Fault) α) :=
  fun _ _ => h

/-- A reading without a state is a step that leaves the state alone. -/
theorem Keeps.lift {x : Except Fault α} (h : Ends good bad x) :
    Keeps inv good bad (liftM x : StateT σ (Except Fault) α) :=
  fun _ hs => Ends.bind h fun _ ha => ⟨ha, hs⟩

/-- Steps for all elements keep what each of them keeps. -/
theorem Keeps.mapM {xs : List α} {f : α → StateT σ (Except Fault) β}
    (h : ∀ x ∈ xs, Keeps inv (fun _ => True) bad (f x)) :
    Keeps inv (fun _ => True) bad (xs.mapM f) := by
  induction xs with
  | nil => exact Keeps.pure trivial
  | cons x xs ih =>
    rw [List.mapM_cons]
    refine (h x List.mem_cons_self).bind fun y _ => ?_
    exact (ih fun x' hx' => h x' (List.mem_cons_of_mem x hx')).bind fun _ _ => Keeps.pure trivial

/-- Actions for all elements keep what each of them keeps. -/
theorem Keeps.forM {xs : List α} {f : α → StateT σ (Except Fault) PUnit}
    (h : ∀ x ∈ xs, Keeps inv (fun _ => True) bad (f x)) :
    Keeps inv (fun _ => True) bad (xs.forM f) := by
  induction xs with
  | nil => exact Keeps.pure trivial
  | cons x xs ih =>
    refine (h x List.mem_cons_self).bind fun _ _ => ?_
    exact ih fun x' hx' => h x' (List.mem_cons_of_mem x hx')

end Ostinato.Yaml

import Ostinato.Proofs.Yaml.Reader
import Ostinato.Proofs.Yaml.Value
import Ostinato.Yaml.Document

/-!
# Why a file has no document

A file is decoded, read and made into values. `Document.Misspelled` says of its text and of its
graph alone what no value can be made of. The main result, `ends_document_ofBytes`, is that a
scalar fault never comes from anything else.
-/

namespace Ostinato.Yaml

variable {bad : Prop}

/-! ## Taking a file in -/

namespace Source

/-- Feeding characters never meets the fault of a scalar. -/
theorem ends_run (f : Feed) (wanted : Nat) : Ends (fun _ => True) bad (f.run wanted) := by
  unfold Feed.run
  dsimp only
  split <;> exact trivial

/-- Taking characters from a feed never meets the fault of a scalar. -/
theorem ends_take (fuel wanted : Nat) (f : Feed) :
    Ends (fun _ => True) bad (Feed.take fuel wanted f) := by
  induction fuel generalizing wanted f with
  | zero => exact trivial
  | succ fuel ih =>
    unfold Feed.take
    refine Ends.ite (fun _ => trivial) fun _ => (ends_run _ _).andThen fun _ => ?_
    exact Ends.ite (fun _ => (ih _ _).andThen fun _ => trivial) fun _ => trivial

/-- Taking a piece from a feed never meets the fault of a scalar. -/
theorem ends_piece (f : Feed) : Ends (fun _ => True) bad f.piece := ends_take _ _ _

/-- The check of a piece never meets the fault of a scalar. -/
theorem ends_checkPiece (piece : List Char) : Ends (fun _ => True) bad (checkPiece piece) :=
  Ends.ite (fun _ => trivial) fun _ => trivial

/-- The opening of a feed never meets the fault of a scalar. -/
theorem ends_opening (f : Feed) : Ends (fun _ => True) bad (opening f) := by
  refine (ends_piece _).andThen fun _ => Ends.ite (fun _ => trivial) fun _ => ?_
  exact (ends_piece _).andThen fun _ => (ends_checkPiece _).andThen fun _ => trivial

/-- What is wrong with a file is no matter of its scalars. -/
theorem isNoScalar_of_pieces (fuel : Nat) (f : Feed) {fault : Fault}
    (h : (pieces fuel f).fault = some fault) : fault.IsNoScalar := by
  induction fuel generalizing f with
  | zero => cases h
  | succ fuel ih =>
    unfold pieces at h
    split at h
    next fault' hpiece =>
      cases h
      exact Ends.isNoScalar (hpiece ▸ ends_piece _)
    · cases h
    · split at h
      next fault' hpiece =>
        cases h
        exact Ends.isNoScalar (hpiece ▸ ends_checkPiece _)
      · exact ih _ h

/-- The fault at the end of a source is never that of a scalar. -/
theorem isNoScalar_of_ofBytes (data : List UInt8) {fault : Fault}
    (h : (ofBytes data).fault = some fault) : fault.IsNoScalar := by
  unfold ofBytes at h
  split at h
  next fault' hopening =>
    cases h
    exact Ends.isNoScalar (hopening ▸ ends_opening _)
  · exact isNoScalar_of_pieces _ _ h

end Source

/-! ## Documents -/

namespace Document

/-- A file with something that spells no value: a number in its text that is too large to be read,
or a node of its graph. -/
inductive Misspelled (data : List UInt8) : Prop
  | number (h : HasLargeNumber (Source.ofBytes data).chars)
  | node {g : Graph} {root : Nat} (hgraph : Graph.ofSource (.ofBytes data) = .ok (g, some root))
      (h : g.Misspelled)

end Document

/-- Nothing but what is misspelled makes a file end in a scalar fault. -/
theorem ends_document_ofBytes (data : List UInt8) :
    Ends (fun _ => True) (Document.Misspelled data) (Document.ofBytes data) := by
  have hread := ends_graph_ofSource fun _ => Source.isNoScalar_of_ofBytes data
  rw [Document.ofBytes, Document.ofSource]
  cases hgraph : Graph.ofSource (.ofBytes data) with
  | error fault =>
    rw [hgraph] at hread
    cases fault with
    | scalar f => exact .number hread
    | encoding | document reason | ended | tooDeep => exact trivial
  | ok r =>
    obtain ⟨g, root⟩ := r
    cases root with
    | none => exact trivial
    | some root => exact (ends_graph_document g root).because (.node hgraph)

end Ostinato.Yaml

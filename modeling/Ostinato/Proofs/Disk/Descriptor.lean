import Ostinato.Instrument.Definition
import Ostinato.Proofs.Disk.Agreement
import Ostinato.Proofs.Yaml.Document

/-!
# What becomes of a descriptor

A descriptor that is there should be accepted or malformed. The main result,
`read_settles_or_misspelled`, is that it is, unless something in it spells no value or is nested too
deeply. That these two ways out are open is shown by an impossible date
(`read_unsettled_of_impossible_date`).
-/

namespace Ostinato.Descriptor

variable {α : Type} {t : FileTree} {path : Path} {key : String}
  {check : Pool → Value → Checked α} {data : List UInt8}

/-- An entry of a document that is a mapping. -/
def HasEntry (key : String) (d : Yaml.Document) (v : Value) : Prop :=
  ∃ entries, d.pool.resolve d.root = .dict entries ∧ Value.lookup key entries = some v

/-- A file of which the entry under a key passes its check. -/
inductive Accepts (key : String) (check : Pool → Value → Checked α) (data : List UInt8) (a : α) :
    Prop
  | intro {d : Yaml.Document} {v : Value} (hdocument : Yaml.Document.ofBytes data = .ok d)
      (hentry : HasEntry key d v) (hcheck : check d.pool v = .ok a)

/-- What makes a file malformed: it is no text or no document, it has no entry under the key, or the
entry does not pass its check. -/
inductive IsMalformed (key : String) (check : Pool → Value → Checked α) (data : List UInt8) :
    Malformation → Prop
  | encoding (hdocument : Yaml.Document.ofBytes data = .error .encoding) :
      IsMalformed key check data .encoding
  | document {reason : String}
      (hdocument : Yaml.Document.ofBytes data = .error (.document reason)) :
      IsMalformed key check data (.yaml reason)
  | ended (hdocument : Yaml.Document.ofBytes data = .error .ended) :
      IsMalformed key check data (.yaml "the text ends too early")
  | noEntry {d : Yaml.Document} (hdocument : Yaml.Document.ofBytes data = .ok d)
      (hentry : ∀ v, ¬ HasEntry key d v) : IsMalformed key check data (.noEntry key)
  | invalid {d : Yaml.Document} {v : Value} {issues : List Issue}
      (hdocument : Yaml.Document.ofBytes data = .ok d) (hentry : HasEntry key d v)
      (hcheck : check d.pool v = .error issues) (hflat : isTooDeep issues = false) :
      IsMalformed key check data (.invalid issues)

/-- A file of which the document or what a check asks for is nested too deeply. -/
inductive IsTooDeep (key : String) (check : Pool → Value → Checked α) (data : List UInt8) : Prop
  | document (hdocument : Yaml.Document.ofBytes data = .error .tooDeep)
  | check {d : Yaml.Document} {v : Value} {issues : List Issue}
      (hdocument : Yaml.Document.ofBytes data = .ok d) (hentry : HasEntry key d v)
      (hcheck : check d.pool v = .error issues) (hdeep : isTooDeep issues = true)

/-! ## Entries -/

/-- A document with the entry has what becomes of the value under the key. -/
theorem entry_of_hasEntry {d : Yaml.Document} {v : Value} (h : HasEntry key d v) :
    entry key check d = (check d.pool v).mapError .invalid := by
  obtain ⟨entries, hroot, hlookup⟩ := h
  rw [entry, hroot]
  dsimp only
  rw [hlookup]
  dsimp only
  cases check d.pool v <;> rfl

/-- A document without the entry is refused for that. -/
theorem entry_of_noEntry {d : Yaml.Document} (h : ∀ v, ¬ HasEntry key d v) :
    entry key check d = .error (.noEntry key) := by
  unfold entry
  split
  next entries hroot =>
    split
    · rfl
    next v hlookup => exact absurd ⟨entries, hroot, hlookup⟩ (h v)
  · rfl

/-! ## Descriptors -/

/-- A file that is accepted, or that is malformed under its own path. -/
inductive Settles (path : Path) (key : String) (check : Pool → Value → Checked α)
    (data : List UInt8) : Except DescriptorFault α → Prop
  | accepted {a : α} (h : Accepts key check data a) : Settles path key check data (.ok a)
  | malformed {reason : Malformation} (h : IsMalformed key check data reason) :
      Settles path key check data (.error (.malformed path reason))

/-- A document that can be read is settled, or is met as nested too deeply. -/
theorem parse_of_document {d : Yaml.Document} (hdocument : Yaml.Document.ofBytes data = .ok d) :
    Settles path key check data (parse path key check data) ∨
      parse path key check data = .error .tooDeep ∧ IsTooDeep key check data := by
  unfold parse
  rw [hdocument]
  dsimp only
  by_cases hentry : ∃ v, HasEntry key d v
  · obtain ⟨v, hv⟩ := hentry
    rw [entry_of_hasEntry hv]
    cases hcheck : check d.pool v with
    | ok a => exact .inl (.accepted ⟨hdocument, hv, hcheck⟩)
    | error issues =>
      -- among the issues may be that the check went too deep
      cases hdeep : isTooDeep issues with
      | true => exact .inr ⟨by simp [Except.mapError, hdeep], .check hdocument hv hcheck hdeep⟩
      | false =>
        have hinvalid : Settles path key check data (.error (.malformed path (.invalid issues))) :=
          .malformed (.invalid hdocument hv hcheck hdeep)
        simpa [Except.mapError, hdeep] using hinvalid
  · rw [entry_of_noEntry (not_exists.mp hentry)]
    exact .inl (.malformed (.noEntry hdocument (not_exists.mp hentry)))

/-- A file that is there is accepted, with what its check makes of the entry under the key, or it is
malformed, for one of five reasons and under its own path. There are two ways out: a scalar fault,
if a number in the text is too large to be read or a node of the graph does not spell a value of its
tag; and a document or a check that goes too deep. -/
theorem read_settles_or_misspelled (hread : t.read path = .ok data) (key : String)
    (check : Pool → Value → Checked α) :
    Settles path key check data (read t path key check) ∨
      (∃ fault, read t path key check = .error (.scalar fault)) ∧ Yaml.Document.Misspelled data ∨
      read t path key check = .error .tooDeep ∧ IsTooDeep key check data := by
  have hends := Yaml.ends_document_ofBytes data
  cases hdocument : Yaml.Document.ofBytes data with
  | ok d =>
    have hparse : read t path key check = parse path key check data := by rw [read, hread]
    rw [hparse]
    obtain hsettles | hdeep := parse_of_document hdocument
    · exact .inl hsettles
    · exact .inr (.inr hdeep)
  | error fault =>
    rw [read_eq_error hread hdocument]
    cases fault with
    | encoding => exact .inl (.malformed (.encoding hdocument))
    | document reason => exact .inl (.malformed (.document hdocument))
    | ended => exact .inl (.malformed (.ended hdocument))
    | scalar f => exact .inr (.inl ⟨⟨f, rfl⟩, hends.reason hdocument⟩)
    | tooDeep => exact .inr (.inr ⟨rfl, .document hdocument⟩)

/-! ## A file that is neither -/

/-- A date that no calendar has, where the type of an instrument should be. -/
def impossibleDate : List UInt8 := "instrument:\n  type: 2024-02-30\n".toUTF8.toList

/-- A tree with this file alone. -/
def impossibleTree : FileTree := ⟨[(⟨false, ["d.yaml"]⟩, .file impossibleDate)]⟩

/-- What stands in the file with the impossible date. -/
theorem read_impossibleTree : impossibleTree.read ⟨.working, ["d.yaml"]⟩ = .ok impossibleDate := by
  cbv

/-- A file with an impossible date fails with the fault of a scalar, whatever is asked of it. -/
theorem read_eq_scalar_of_impossibleDate (key : String) (check : Pool → Value → Checked α) :
    read impossibleTree ⟨.working, ["d.yaml"]⟩ key check = .error (.scalar .notAValue) := by
  have hdocument : Yaml.Document.ofBytes impossibleDate = .error (.scalar .notAValue) :=
    eq_error_of_faultOf? (by decide +kernel)
  exact read_eq_error read_impossibleTree hdocument

/-- The file with the impossible date is misspelled. -/
theorem read_settles_or_misspelled_of_impossible_date :
    impossibleTree.read ⟨.working, ["d.yaml"]⟩ = .ok impossibleDate ∧
      Yaml.Document.Misspelled impossibleDate := by
  refine ⟨read_impossibleTree, ?_⟩
  have hscalar := read_eq_scalar_of_impossibleDate "instrument" Definition.ofValue
  obtain hsettles | ⟨-, hmisspelled⟩ | ⟨hdeep, -⟩ :=
    read_settles_or_misspelled read_impossibleTree "instrument" Definition.ofValue
  · rw [hscalar] at hsettles
    cases hsettles
  · exact hmisspelled
  · rw [hscalar] at hdeep
    cases hdeep

/-- Not every file that is there is accepted or malformed. -/
theorem read_unsettled_of_impossible_date :
    ¬ ∀ (t : FileTree) (path : Path) (data : List UInt8), t.read path = .ok data →
      Settles path "instrument" Definition.ofValue data
        (read t path "instrument" Definition.ofValue) := by
  intro h
  have hsettles := h _ _ _ read_impossibleTree
  rw [read_eq_scalar_of_impossibleDate] at hsettles
  cases hsettles

end Ostinato.Descriptor

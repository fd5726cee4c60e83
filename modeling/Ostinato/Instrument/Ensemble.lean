import Ostinato.Instrument.Basic

/-!
# Ensembles

An ensemble holds instruments under distinct names, in the order in which they came. Parts ask for
an instrument by its type; of several with one type the first that came plays.
-/

namespace Ostinato

/-- Instruments in order, and for each type the first of them that has it. -/
structure Ensemble where
  members : List Instrument
  byType : List (Text × Instrument)
  deriving Repr

/-- Two instruments with one name. -/
structure DuplicateName where
  name : String
  deriving DecidableEq, Repr

/-- What is wrong with a second instrument of a name. -/
def DuplicateName.message (e : DuplicateName) : String := "Duplicate instrument name: " ++ e.name

namespace Ensemble

/-- No instruments. -/
def empty : Ensemble := ⟨[], []⟩

/-- The number of instruments. -/
def size (e : Ensemble) : Nat := e.members.length

/-- The names in order. -/
def names (e : Ensemble) : List String := e.members.map (·.name)

/-- Whether an instrument has a name. -/
def contains (e : Ensemble) (name : String) : Bool := e.names.contains name

/-- The instrument with a name. -/
def get? (e : Ensemble) (name : String) : Option Instrument := e.members.find? (·.name = name)

/-- The instrument that plays for a type. -/
def findByType (e : Ensemble) (type : Text) : Option Instrument := e.byType.lookup type

/-- Adds an instrument whose name is new. -/
def add (e : Ensemble) (i : Instrument) : Except DuplicateName Ensemble :=
  if e.contains i.name then .error ⟨i.name⟩
  else
    let byType := if (e.findByType i.type).isSome then e.byType else e.byType ++ [(i.type, i)]
    .ok ⟨e.members ++ [i], byType⟩

/-- Adds instruments one after the other. -/
def addAll (e : Ensemble) : List Instrument → Except DuplicateName Ensemble
  | [] => .ok e
  | i :: is =>
    match e.add i with
    | .error fault => .error fault
    | .ok e => e.addAll is

/-- The ensemble of some instruments. -/
def ofList (is : List Instrument) : Except DuplicateName Ensemble := empty.addAll is

end Ensemble

end Ostinato

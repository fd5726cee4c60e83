import Ostinato.Value.Text

/-!
# What is wrong with a value

An issue says which part of a value breaks a rule, and which rule. A check that fails gives all its
issues, in the order in which the parts are declared or stand in the value.
-/

namespace Ostinato

/-- A step from a value to one of its parts. -/
inductive Step
  | name (s : String)
  | index (i : Int)
  deriving DecidableEq, Repr

/-- The rules that a value can break. -/
inductive Complaint
  | missing
  | notText
  | notUnicode
  | notList
  | notDict
  | notInteger
  | unreadable
  | fractional
  | notFinite
  | oversized
  | tooSmall (least : Int)
  | tooLarge (greatest : Int)
  /-- No mapping where a named record has to be. -/
  | notRecord (name : String)
  | notPath
  /-- A note with neither or both of its two ways to sound. -/
  | pitchChoice
  /-- A value whose text is asked for and has none. -/
  | unwritable (reason : Unwritable)
  deriving DecidableEq, Repr

namespace Complaint

/-- The short name of a rule. -/
def code : Complaint → String
  | missing => "missing"
  | notText => "string_type"
  | notUnicode => "string_unicode"
  | notList => "list_type"
  | notDict => "dict_type"
  | notInteger => "int_type"
  | unreadable => "int_parsing"
  | fractional => "int_from_float"
  | notFinite => "finite_number"
  | oversized => "int_parsing_size"
  | tooSmall _ => "greater_than_equal"
  | tooLarge _ => "less_than_equal"
  | notRecord _ => "model_type"
  | notPath => "path_type"
  | pitchChoice => "value_error"
  | unwritable _ => "value_error"

/-- What a rule asks for. -/
def message : Complaint → String
  | missing => "Field required"
  | notText => "Input should be a valid string"
  | notUnicode => "Input should be a valid string, unable to parse raw data as a unicode string"
  | notList => "Input should be a valid list"
  | notDict => "Input should be a valid dictionary"
  | notInteger => "Input should be a valid integer"
  | unreadable => "Input should be a valid integer, unable to parse string as an integer"
  | fractional => "Input should be a valid integer, got a number with a fractional part"
  | notFinite => "Input should be a finite number"
  | oversized => "Unable to parse input string as an integer, exceeded maximum size"
  | tooSmall least => "Input should be greater than or equal to " ++ integerText least
  | tooLarge greatest => "Input should be less than or equal to " ++ integerText greatest
  | notRecord name => "Input should be a valid dictionary or instance of " ++ name
  | notPath => "Input is not a valid path for <class 'pathlib.Path'>"
  | pitchChoice => "Value error, a note needs exactly one of 'pitch' or 'pitches'"
  | unwritable .tooManyDigits =>
    "Value error, Exceeds the limit (" ++ integerText Text.maxDigits ++ " digits) for integer " ++
      "string conversion; use sys.set_int_max_str_digits() to increase the limit"
  | unwritable .tooDeep => "Value error, nested too deeply"

end Complaint

/-- A broken rule and the way to the part that breaks it. -/
structure Issue where
  loc : List Step
  complaint : Complaint
  deriving DecidableEq, Repr

/-- A step as it is shown. -/
def Step.text : Step → String
  | name s => s
  | index i => integerText i

/-- An issue as it is shown. -/
def Issue.text (i : Issue) : String :=
  String.intercalate "." (i.loc.map Step.text) ++ ": " ++ i.complaint.message

/-- A checked value, or all that is wrong with it. -/
abbrev Checked (α : Type) := Except (List Issue) α

namespace Checked

/-- The whole value breaks a rule. -/
def refuse {α : Type} (c : Complaint) : Checked α := .error [⟨[], c⟩]

/-- A check of the part that lies one step down. -/
def under {α : Type} (step : Step) : Checked α → Checked α
  | .ok a => .ok a
  | .error issues => .error (issues.map fun i => ⟨step :: i.loc, i.complaint⟩)

/-- Two checks, both made: the issues of the first come first. -/
def both {α β γ : Type} (f : α → β → γ) : Checked α → Checked β → Checked γ
  | .ok a, .ok b => .ok (f a b)
  | .ok _, .error issues => .error issues
  | .error issues, .ok _ => .error issues
  | .error issues, .error more => .error (issues ++ more)

/-- A check of a checked value. -/
def andThen {α β : Type} (f : α → Checked β) : Checked α → Checked β
  | .ok a => f a
  | .error issues => .error issues

end Checked

end Ostinato

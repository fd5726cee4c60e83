/-!
# Why a document cannot be read

A document fault means that the text is no YAML document, or one with a tag that nothing here
knows. A scalar fault means that the document is sound but a scalar does not spell a value of its
tag.
-/

namespace Ostinato.Yaml

/-- How a scalar can fail to spell a value of its tag. -/
inductive ScalarFault
  /-- No number, no date of the calendar, or no code point. -/
  | notAValue
  /-- A code point or a weight too large to be looked at. -/
  | tooLarge
  /-- No word for true or false. -/
  | notABool
  /-- Nothing where a number has to be. -/
  | noNumber
  /-- No date or time at all. -/
  | notAStamp
  /-- A collection where a date has to be. -/
  | stampedCollection
  deriving DecidableEq, Repr

/-- Why a document cannot be read. -/
inductive Fault
  /-- The bytes are no UTF-8. -/
  | encoding
  | document (reason : String)
  /-- The text ends where a token has to go on. -/
  | ended
  | scalar (fault : ScalarFault)
  /-- The parts of the document are nested too deeply. -/
  | tooDeep
  deriving DecidableEq, Repr

end Ostinato.Yaml

import Ostinato.Text.Basic
import Ostinato.Yaml.Cursor

/-!
# Tokens

The words of a document's grammar. Block structure, which the text shows by indentation, is already
made explicit: a block starts and ends with a token.
-/

namespace Ostinato.Yaml

/-- A directive in front of a document. -/
inductive Directive
  | version (major : Nat)
  | tag (handle lead : String)
  | other
  deriving DecidableEq, Repr

/-- A token. -/
inductive Token
  | directive (d : Directive)
  | documentStart
  | documentEnd
  | streamEnd
  | blockSequenceStart
  | blockMappingStart
  | blockEnd
  | flowSequenceStart
  | flowSequenceEnd
  | flowMappingStart
  | flowMappingEnd
  | blockEntry
  | flowEntry
  | key
  | value
  | alias (name : String)
  | anchor (name : String)
  | tag (handle : Option String) (suffix : String)
  | scalar (text : Text) (plain : Bool)
  deriving DecidableEq, Repr

/-- Refuses the document. -/
def refuse {α : Type} (reason : String) : Except Fault α := .error (.document reason)

/-- Refuses the document for what stands at a place, or does not stand there any more. -/
def refuseAt {α : Type} (rest : List Char) (reason : String) : Except Fault α :=
  if rest.isEmpty then .error .ended else refuse reason

end Ostinato.Yaml

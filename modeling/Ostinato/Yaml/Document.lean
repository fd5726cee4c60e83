import Ostinato.Yaml.Graph.Reader
import Ostinato.Yaml.Graph.Value

/-!
# Reading a document

From the bytes of a file to the value of its only document. A file that holds no document holds
null.
-/

namespace Ostinato.Yaml

/-- The document of a text. -/
def Document.ofSource (source : Source) : Except Fault Document := do
  match ← Graph.ofSource source with
  | (_, none) => return ⟨.null, .empty⟩
  | (g, some root) => g.document root

/-- The document of the bytes of a file. -/
def Document.ofBytes (data : List UInt8) : Except Fault Document :=
  Document.ofSource (.ofBytes data)

end Ostinato.Yaml

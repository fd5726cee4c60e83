import Ostinato.Check.Issue
import Ostinato.Disk.Tree
import Ostinato.Yaml.Document

/-!
# Descriptor files

A descriptor is a YAML document that is a mapping with one key of interest. The descriptors of a
directory are read in the order of their names, whatever order the file system gives them. To tell
files from directories every entry is looked up, and one whose path is too long for that ends the
listing.
-/

namespace Ostinato

/-- What is wrong with the content of a descriptor. -/
inductive Malformation
  /-- The bytes are no text. -/
  | encoding
  /-- The text is no document. -/
  | yaml (reason : String)
  /-- The document has no entry under the key. -/
  | noEntry (key : String)
  /-- The entry does not pass its checks. -/
  | invalid (issues : List Issue)
  /-- The instrument of another file has its name already. -/
  | duplicateName (name : String)
  deriving DecidableEq, Repr

/-- Why a descriptor cannot be read. -/
inductive DescriptorFault
  | disk (path : Path) (fault : DiskFault)
  | malformed (path : Path) (reason : Malformation)
  /-- A scalar that does not spell a value of its tag. -/
  | scalar (fault : Yaml.ScalarFault)
  /-- Parts that are nested too deeply, in the document or in a value whose text is asked for. -/
  | tooDeep
  deriving DecidableEq, Repr

/-- The text of a malformed descriptor's fault. -/
def malformedMessage (path : Path) (reason : String) : String :=
  "Malformed descriptor " ++ path.text ++ ": " ++ reason

/-- What is wrong with a malformed descriptor. -/
def Malformation.reason : Malformation → String
  | encoding => "the file is not UTF-8"
  | yaml reason => reason
  | noEntry key => "expected a top-level '" ++ key ++ "' mapping"
  | invalid issues => String.intercalate "; " (issues.map Issue.text)
  | duplicateName name => "duplicate instrument name " ++ Text.quoted name

/-- What is wrong when a descriptor cannot be read. -/
def DescriptorFault.message : DescriptorFault → String
  | disk path fault => fault.message path
  | malformed path reason => malformedMessage path reason.reason
  | scalar _ => "a scalar does not spell a value of its tag"
  | tooDeep => "the document is nested too deeply"

namespace Descriptor

/-- The suffixes of descriptor files, in whatever case. -/
def suffixes : List String := [".yaml", ".yml"]

/-- Whether a file with this path is a descriptor. -/
def isDescriptor (p : Path) : Bool := suffixes.contains p.suffix.toLower

/-- Why the descriptors in a directory cannot be listed. -/
inductive ListFault
  /-- No directory at the path. -/
  | missing (path : Path)
  | disk (path : Path) (fault : DiskFault)
  deriving DecidableEq, Repr

/-- What is wrong when the descriptors in a directory cannot be listed. -/
def ListFault.message : ListFault → String
  | missing path => "Descriptor directory not found: " ++ path.text
  | disk path fault => fault.message path

/-- The descriptors among some files of a directory, in the order of their names. -/
def sorted (directory : Path) (names : List String) : List Path :=
  ((names.mergeSort fun a b => decide (a ≤ b)).map directory.child).filter isDescriptor

/-- The name of an entry of a directory, if it is a regular file. -/
def fileName (t : FileTree) (directory : Path) (name : String) :
    Except ListFault (Option String) :=
  match t.isFile (directory.child name) with
  | .ok true => .ok (some name)
  | .ok false => .ok none
  | .error fault => .error (.disk (directory.child name) fault)

/-- The descriptors in a directory. -/
def list (t : FileTree) (directory : Path) : Except ListFault (List Path) :=
  match t.isDirectory directory with
  | .ok true => do
    let found ← (t.namesIn directory).mapM (fileName t directory)
    return sorted directory (found.filterMap id)
  | .ok false => .error (.missing directory)
  | .error fault => .error (.disk directory fault)

/-- The fault of a file with a document fault. -/
def ofFault (path : Path) : Yaml.Fault → DescriptorFault
  | .encoding => .malformed path .encoding
  | .document reason => .malformed path (.yaml reason)
  | .ended => .malformed path (.yaml "the text ends too early")
  | .scalar fault => .scalar fault
  | .tooDeep => .tooDeep

/-- The checked entry of a document. -/
def entry {α : Type} (key : String) (check : Pool → Value → Checked α) (d : Yaml.Document) :
    Except Malformation α :=
  match d.pool.resolve d.root with
  | .dict entries =>
    match Value.lookup key entries with
    | none => .error (.noEntry key)
    | some v =>
      match check d.pool v with
      | .ok a => .ok a
      | .error issues => .error (.invalid issues)
  | _ => .error (.noEntry key)

/-- Whether a check has met something that is nested too deeply. -/
def isTooDeep (issues : List Issue) : Bool :=
  issues.any fun i => i.complaint = .unwritable .tooDeep

/-- The checked entry of a file's content. -/
def parse {α : Type} (path : Path) (key : String) (check : Pool → Value → Checked α)
    (data : List UInt8) : Except DescriptorFault α :=
  match Yaml.Document.ofBytes data with
  | .error fault => .error (ofFault path fault)
  | .ok document =>
    match entry key check document with
    | .ok a => .ok a
    | .error (.invalid issues) =>
      .error (if isTooDeep issues then .tooDeep else .malformed path (.invalid issues))
    | .error reason => .error (.malformed path reason)

/-- Reads the descriptor at a path. -/
def read {α : Type} (t : FileTree) (path : Path) (key : String)
    (check : Pool → Value → Checked α) : Except DescriptorFault α :=
  match t.read path with
  | .error fault => .error (.disk path fault)
  | .ok data => parse path key check data

end Descriptor

end Ostinato

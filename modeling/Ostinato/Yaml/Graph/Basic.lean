import Ostinato.Text.Basic
import Ostinato.Yaml.Tag

/-!
# The graph of a document

The nodes of a document have numbers, and a collection holds its parts by their numbers. So an alias
is the number of the node that its anchor names, and a collection can stand inside itself.
-/

namespace Ostinato.Yaml

/-- What a node holds. -/
inductive Content
  | scalar (text : Text)
  | sequence (items : List Nat)
  | mapping (entries : List (Nat × Nat))
  deriving DecidableEq, Repr

/-- A node of a document. -/
structure Node where
  tag : Tag
  content : Content
  deriving DecidableEq, Repr

/-- The scalar that stands where there is nothing. -/
def Node.empty : Node := ⟨.null, .scalar ""⟩

instance : Inhabited Node := ⟨.empty⟩

/-- The nodes of a document by their numbers. -/
structure Graph where
  nodes : Array Node
  deriving Repr

namespace Graph

/-- No nodes. -/
def empty : Graph := ⟨#[]⟩

/-- The node with a number. -/
def node (g : Graph) (n : Nat) : Node := (g.nodes[n]?).getD .empty

/-- The tag of a node. -/
def tag (g : Graph) (n : Nat) : Tag := (g.node n).tag

/-- The entries of a mapping; nothing else has any. -/
def entries (g : Graph) (n : Nat) : List (Nat × Nat) :=
  match (g.node n).content with
  | .mapping entries => entries
  | _ => []

/-- Whether a node is a mapping. -/
def isMapping (g : Graph) (n : Nat) : Bool :=
  match (g.node n).content with
  | .mapping _ => true
  | _ => false

/-- Adds a node. -/
def add (g : Graph) (node : Node) : Graph := ⟨g.nodes.push node⟩

/-- Replaces a node. -/
def set (g : Graph) (n : Nat) (node : Node) : Graph := ⟨g.nodes.setIfInBounds n node⟩

/-- Replaces the tag of a node. -/
def setTag (g : Graph) (n : Nat) (tag : Tag) : Graph := g.set n { g.node n with tag }

/-- Replaces the entries of a mapping. -/
def setEntries (g : Graph) (n : Nat) (entries : List (Nat × Nat)) : Graph :=
  g.set n { g.node n with content := .mapping entries }

/-- The text of a scalar. A mapping stands for the scalar under its first value key, and so on, up
to `room` steps. -/
def scalarText (g : Graph) : Nat → Nat → Except Fault Text
  | 0, _ => .error .tooDeep
  | room + 1, n =>
    match (g.node n).content with
    | .scalar text => .ok text
    | .sequence _ => .error (.document "a sequence is no scalar")
    | .mapping entries =>
      match entries.find? fun e => g.tag e.1 = .value with
      | some (_, v) => scalarText g room v
      | none => .error (.document "a mapping is no scalar")

end Graph

end Ostinato.Yaml

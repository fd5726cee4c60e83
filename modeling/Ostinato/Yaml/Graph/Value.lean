import Ostinato.Value.Text
import Ostinato.Yaml.Graph.Merge
import Ostinato.Yaml.Scalar

/-!
# From graphs to values

Every node becomes a value of its tag, and every node only one. Collections are announced when they
are met and filled later, one level of the document after the other; the merge keys of a mapping are
followed when it is filled. So of several faults the one on the outermost level comes first, and on
one level the first.
-/

namespace Ostinato.Yaml

/-- The values of a document as far as they have been built. -/
structure Building where
  graph : Graph
  /-- The number of merge keys that the graph had when it was read. -/
  mergeKeys : Nat
  /-- The value of each node that has one. -/
  values : Array (Option Value)
  /-- The collections that have been filled, by the numbers of their nodes. -/
  pool : Pool
  /-- The collections that have been announced, the last one first. -/
  announced : List Nat

/-- A step of building. -/
abbrev Builder := StateT Building (Except Fault)

namespace Builder

/-- Refuses the document. -/
def refuse {α : Type} (reason : String) : Builder α := throw (.document reason)

/-- The text of a node that has to be a scalar. -/
def scalarText (n : Nat) : Builder Text := do
  match (← get).graph.scalarText maxDepth n with
  | .ok text => return text
  | .error fault => throw fault

/-- The characters of a node that has to be a scalar. -/
def scalarChars (n : Nat) : Builder (List Char) := do return (← scalarText n).chars

/-- Announces a collection. -/
def announce (n : Nat) : Builder Value := do
  modify fun b => { b with announced := n :: b.announced }
  return .shared n

/-- A date or a time, which has to be spelled by a scalar. -/
def timestamp (n : Nat) : Builder Value := do
  let cs ← scalarChars n
  match ((← get).graph.node n).content with
  | .scalar _ => readTimestamp cs
  | _ => throw (.scalar .stampedCollection)

/-- The value of a node that has none yet. -/
def start (n : Nat) : Builder Value := do
  match (← get).graph.tag n with
  | .null =>
    let _ ← scalarText n
    return .null
  | .bool => return .bool (← readBool (← scalarChars n))
  | .int => return .int (← readInt (← scalarChars n))
  | .float => return .float (← readFloat (← scalarChars n))
  | .binary => return .bytes (← readBinary (← scalarChars n))
  | .timestamp => timestamp n
  | .str => return .text (← scalarText n)
  | .omap | .pairs | .set | .seq | .map => announce n
  | .merge | .value | .other => refuse "a tag is unknown"

/-- The value of a node. -/
def value (n : Nat) : Builder Value := do
  match ((← get).values[n]?).join with
  | some v => return v
  | none =>
    let v ← start n
    modify fun b => { b with values := b.values.setIfInBounds n (some v) }
    return v

/-! ## Filling collections -/

/-- A key: its value and, where what is no number is made anew for each node, its node. -/
structure Key where
  value : Value
  origin : Option Nat

/-- Whether two keys are the same: as values, or as the same thing that is no number. -/
def Key.same (k l : Key) : Bool :=
  k.value.sameKey l.value ||
    match k.value, l.value with
    | .float .nan, .float .nan => k.origin = l.origin
    | _, _ => false

/-- The key that a node is. -/
def key (n : Nat) : Builder Key := do
  let v ← value n
  if !v.isKey then refuse "a collection is no key"
  else
    match (← get).graph.scalarText maxDepth n with
    | .ok text => return ⟨v, if isNoNumber text.chars then none else some n⟩
    | .error _ => return ⟨v, some n⟩

/-- The entries of a mapping, with its merge keys followed. -/
def entries (n : Nat) : Builder (List (Key × Value)) := do
  if !(← get).graph.isMapping n then refuse "a mapping is asked for"
  else
    let b ← get
    match b.graph.merge b.mergeKeys maxDepth n with
    | .error fault => throw fault
    | .ok graph =>
      set { b with graph }
      let es ← (graph.entries n).mapM fun (k, v) => do
        let k ← key k
        return (k, ← value v)
      return Value.distinctEntries Key.same es

/-- The items of a sequence. -/
def items (n : Nat) : Builder (List Nat) := do
  match ((← get).graph.node n).content with
  | .sequence items => return items
  | _ => refuse "a sequence is asked for"

/-- A pair: the only entry of a mapping, whose merge keys are not followed for that. -/
def pair (n : Nat) : Builder Value := do
  match ((← get).graph.node n).content with
  | .mapping [(k, v)] =>
    let first ← value k
    return .pair first (← value v)
  | _ => refuse "an element of an ordered mapping is no mapping of one entry"

/-- The content of a collection. -/
def fill (n : Nat) : Builder Value := do
  match (← get).graph.tag n with
  | .omap | .pairs => return .list (← (← items n).mapM pair)
  | .seq => return .list (← (← items n).mapM value)
  | .set => return .set ((← entries n).map (·.1.value))
  | _ => return .dict ((← entries n).map fun e => (e.1.value, e.2))

/-- Fills collections, and then those that have been announced on the way. A node is announced only
once, so their number bounds the levels. -/
def fillLevels : Nat → List Nat → Builder Unit
  | 0, _ => return
  | fuel + 1, level => do
    level.forM fun n => do
      let v ← fill n
      modify fun b => { b with pool.collections := b.pool.collections.setIfInBounds n v }
    let next := (← get).announced.reverse
    if next.isEmpty then return
    else
      modify fun b => { b with announced := [] }
      fillLevels fuel next

/-- The value of a node, with all that belongs to it. -/
def whole (n : Nat) : Builder Value := do
  let v ← value n
  fillLevels (← get).values.size.succ []
  return v

end Builder

/-- A value, and the pool that its references lead to. -/
structure Document where
  root : Value
  pool : Pool
  deriving Repr

/-- The document whose root is a node of a graph. -/
def Graph.document (g : Graph) (root : Nat) : Except Fault Document := do
  let size := g.nodes.size
  let (v, b) ← (Builder.whole root).run
    ⟨g, g.mergeCount, Array.replicate size none, ⟨Array.replicate size .null, maxDepth⟩, []⟩
  return ⟨v, b.pool⟩

end Ostinato.Yaml

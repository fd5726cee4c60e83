import Ostinato.Value.Text
import Ostinato.Yaml.Graph.Basic
import Ostinato.Yaml.Token.Lexer

/-!
# Reading a graph

The nodes of a document are read from its tokens, each of which is taken from the text when it is
asked for. A collection has its number from its start on, so that what stands in it can name it.
-/

namespace Ostinato.Yaml

/-- The text that is left, the tag handles of the document, its anchors, and its nodes so far. -/
structure Reader where
  lexer : Lexer
  handles : List (String × String)
  anchors : List (String × Nat)
  graph : Graph

/-- A step of reading. -/
abbrev Reading := StateT Reader (Except Fault)

namespace Reading

/-- Refuses the document. -/
def refuse {α : Type} (reason : String) : Reading α := throw (.document reason)

/-- The next token. -/
def peek : Reading Token := do
  let r ← get
  let lexer ← r.lexer.fill
  set { r with lexer }
  return lexer.next

/-- Drops the next token, which has been looked at. -/
def drop : Reading Unit := modify fun r => { r with lexer := r.lexer.pass }

/-- Drops the next token if it is the given one, and says so. -/
def accept (t : Token) : Reading Bool := do
  if (← peek) = t then
    drop
    return true
  else return false

/-- Whether the next token is one of some. -/
def sees (ts : List Token) : Reading Bool := do return ts.contains (← peek)

/-- Adds a node; its number. -/
def add (node : Node) : Reading Nat :=
  modifyGet fun r => (r.graph.nodes.size, { r with graph := r.graph.add node })

/-- Completes a collection. -/
def complete (n : Nat) (content : Content) : Reading Unit :=
  modify fun r => { r with graph := r.graph.set n { r.graph.node n with content } }

/-! ## Properties of a node -/

/-- The handles that every document has. -/
def defaultHandles : List (String × String) := [("!", "!"), ("!!", Tag.lead)]

/-- The full name of a tag. -/
def tagName (handle : Option String) (suffix : String) : Reading String := do
  match handle with
  | none => return suffix
  | some handle =>
    match (← get).handles.lookup handle with
    | some lead => return lead ++ suffix
    | none => refuse "a tag has an undefined handle"

/-- An anchor in front of a node. -/
def anchor? : Reading (Option String) := do
  match ← peek with
  | .anchor name =>
    drop
    return some name
  | _ => return none

/-- A tag in front of a node. -/
def tag? : Reading (Option (Option String × String)) := do
  match ← peek with
  | .tag handle suffix =>
    drop
    return some (handle, suffix)
  | _ => return none

/-- The anchor and the full tag name in front of a node, in either order. -/
def properties : Reading (Option String × Option String) := do
  let first ← anchor?
  let tag ← tag?
  let anchor ← if first.isNone && tag.isSome then anchor? else pure first
  match tag with
  | none => return (anchor, none)
  | some (handle, suffix) => return (anchor, some (← tagName handle suffix))

/-- Adds a node under its anchor, which must be new. -/
def define (anchor : Option String) (node : Node) : Reading Nat := do
  match anchor with
  | none => add node
  | some name =>
    if ((← get).anchors.lookup name).isSome then refuse "an anchor is defined twice"
    else
      let n ← add node
      modify fun r => { r with anchors := (name, n) :: r.anchors }
      return n

/-- The node that an alias stands for. -/
def resolve (name : String) : Reading Nat := do
  match (← get).anchors.lookup name with
  | some n => return n
  | none => refuse "an alias has no anchor"

/-- The tag of a collection. -/
def collectionTag (name : Option String) (default : Tag) : Tag :=
  match name with
  | none => default
  | some name => if name = "!" then default else .ofName name

/-- The tag of a scalar. Without a name a plain one gets its tag from its spelling. -/
def scalarTag (name : Option String) (text : Text) (plain : Bool) : Tag :=
  match name with
  | none => if plain then .ofSpelling text.chars else .str
  | some name => if name = "!" then .ofSpelling text.chars else .ofName name

/-- A scalar. -/
def scalar (anchor tag : Option String) (text : Text) (plain : Bool) : Reading Nat :=
  define anchor ⟨scalarTag tag text plain, .scalar text⟩

/-- What stands where no node starts: nothing, and only behind an anchor or a tag. -/
def absent (anchor tag : Option String) : Reading Nat :=
  if anchor.isSome || tag.isSome then scalar anchor tag "" true else refuse "a node is missing"

/-- A sequence, whose items a reading gives in reverse. -/
def sequence (anchor tag : Option String) (items : Reading (List Nat)) : Reading Nat := do
  let n ← define anchor ⟨collectionTag tag .seq, .sequence []⟩
  complete n (.sequence (← items).reverse)
  return n

/-- A mapping, whose entries a reading gives in reverse. -/
def mapping (anchor tag : Option String) (entries : Reading (List (Nat × Nat))) : Reading Nat := do
  let n ← define anchor ⟨collectionTag tag .map, .mapping []⟩
  complete n (.mapping (← entries).reverse)
  return n

/-! ## Nodes

The nodes of a collection are read one after the other, and `depth` counts the collections around a
node; each of them takes two steps of nesting. At least one token is taken in every four steps, so a
multiple of the size of the text bounds the steps. -/

/-- How many collections may stand around a node. -/
def maxNesting : Nat := maxDepth / 2

mutual

/-- A node. Inside a block mapping the elements of a sequence may stand without indentation. -/
def node : Nat → Nat → Bool → Bool → Reading Nat
  | 0, _, _, _ => refuse "the document does not end"
  | fuel + 1, depth, block, unindented => do
    if maxNesting < depth then throw .tooDeep
    match ← peek with
    | .alias name =>
      drop
      resolve name
    | _ =>
      let (anchor, tag) ← properties
      match ← peek with
      | .blockEntry =>
        if unindented then sequence anchor tag (unindentedItems fuel depth [])
        else absent anchor tag
      | .scalar text plain =>
        drop
        scalar anchor tag text plain
      | .flowSequenceStart =>
        sequence anchor tag do
          drop
          flowItems fuel depth true []
      | .flowMappingStart =>
        mapping anchor tag do
          drop
          flowEntries fuel depth true []
      | .blockSequenceStart =>
        if block then
          sequence anchor tag do
            drop
            blockItems fuel depth []
        else absent anchor tag
      | .blockMappingStart =>
        if block then
          mapping anchor tag do
            drop
            blockEntries fuel depth []
        else absent anchor tag
      | _ => absent anchor tag

/-- A node one collection further in, or nothing in front of one of some tokens. -/
def nodeUnless : Nat → Nat → List Token → Bool → Bool → Reading Nat
  | 0, _, _, _, _ => refuse "the document does not end"
  | fuel + 1, depth, ends, block, unindented => do
    if ← sees ends then add .empty
    else node fuel (depth + 1) block unindented

/-- The elements of a block sequence, behind those in `items`. -/
def blockItems : Nat → Nat → List Nat → Reading (List Nat)
  | 0, _, _ => refuse "the document does not end"
  | fuel + 1, depth, items => do
    if ← accept .blockEntry then
      let item ← nodeUnless fuel depth [.blockEntry, .blockEnd] true false
      blockItems fuel depth (item :: items)
    else if ← accept .blockEnd then return items
    else refuse "a sequence goes on with something that is no element"

/-- The elements of a sequence that is not indented; whatever is no element ends it. -/
def unindentedItems : Nat → Nat → List Nat → Reading (List Nat)
  | 0, _, _ => refuse "the document does not end"
  | fuel + 1, depth, items => do
    if ← accept .blockEntry then
      let item ← nodeUnless fuel depth [.blockEntry, .key, .value, .blockEnd] true false
      unindentedItems fuel depth (item :: items)
    else return items

/-- The entries of a block mapping. -/
def blockEntries : Nat → Nat → List (Nat × Nat) → Reading (List (Nat × Nat))
  | 0, _, _ => refuse "the document does not end"
  | fuel + 1, depth, entries => do
    if ← accept .key then
      let k ← nodeUnless fuel depth [.key, .value, .blockEnd] true true
      let v ←
        if ← accept .value then nodeUnless fuel depth [.key, .value, .blockEnd] true true
        else add .empty
      blockEntries fuel depth ((k, v) :: entries)
    else if ← accept .blockEnd then return entries
    else refuse "a mapping goes on with something that is no key"

/-- The elements between brackets. A key and its value among them are a mapping of one entry. -/
def flowItems : Nat → Nat → Bool → List Nat → Reading (List Nat)
  | 0, _, _, _ => refuse "the document does not end"
  | fuel + 1, depth, first, items => do
    if ← accept .flowSequenceEnd then return items
    else
      if !first then
        if !(← accept .flowEntry) then refuse "elements need a comma between them"
      if ← accept .key then
        let item ← mapping none none (pairEntry fuel (depth + 1))
        flowItems fuel depth false (item :: items)
      else if ← accept .flowSequenceEnd then return items
      else
        let item ← node fuel (depth + 1) false false
        flowItems fuel depth false (item :: items)

/-- The entry of a mapping that stands between brackets, after its key's mark. -/
def pairEntry : Nat → Nat → Reading (List (Nat × Nat))
  | 0, _ => refuse "the document does not end"
  | fuel + 1, depth => do
    if maxNesting < depth then throw .tooDeep
    let k ← nodeUnless fuel depth [.value, .flowEntry, .flowSequenceEnd] false false
    let v ←
      if ← accept .value then nodeUnless fuel depth [.flowEntry, .flowSequenceEnd] false false
      else add .empty
    return [(k, v)]

/-- The entries between braces. -/
def flowEntries : Nat → Nat → Bool → List (Nat × Nat) → Reading (List (Nat × Nat))
  | 0, _, _, _ => refuse "the document does not end"
  | fuel + 1, depth, first, entries => do
    if ← accept .flowMappingEnd then return entries
    else
      if !first then
        if !(← accept .flowEntry) then refuse "entries need a comma between them"
      if ← accept .key then
        let k ← nodeUnless fuel depth [.value, .flowEntry, .flowMappingEnd] false false
        let v ←
          if ← accept .value then nodeUnless fuel depth [.flowEntry, .flowMappingEnd] false false
          else add .empty
        flowEntries fuel depth false ((k, v) :: entries)
      else if ← accept .flowMappingEnd then return entries
      else
        let k ← node fuel (depth + 1) false false
        let v ← add .empty
        flowEntries fuel depth false ((k, v) :: entries)

end

/-! ## Documents -/

/-- The directives in front of a document, of which `version` tells whether one gave a version. -/
def directives : Nat → Bool → List (String × String) → Reading (List (String × String))
  | 0, _, handles => return handles
  | fuel + 1, versioned, handles => do
    match ← peek with
    | .directive (.version major) =>
      drop
      if versioned then refuse "a document has two versions"
      else if major ≠ 1 then refuse "a document has an unknown version"
      else directives fuel true handles
    | .directive (.tag handle lead) =>
      drop
      if (handles.lookup handle).isSome then refuse "a tag handle is defined twice"
      else directives fuel versioned ((handle, lead) :: handles)
    | .directive .other =>
      drop
      directives fuel versioned handles
    | _ => return handles

/-- Drops marks of a document's end. -/
def dropEnds : Nat → Reading Unit
  | 0 => return
  | fuel + 1 => do
    if ← accept .documentEnd then dropEnds fuel

/-- Directives and the mark of a document's start. -/
def heading (fuel : Nat) : Reading Unit := do
  let handles ← directives fuel false []
  modify fun r => { r with handles := handles ++ defaultHandles }
  if !(← accept .documentStart) then refuse "directives stand in front of no document"

/-- The node of a document that starts here. -/
def content (fuel : Nat) : Reading Nat := do
  match ← peek with
  | .directive _ | .documentStart =>
    heading fuel
    match ← peek with
    | .directive _ | .documentStart | .documentEnd | .streamEnd => add .empty
    | _ => node fuel 0 true false
  | _ => node fuel 0 true false

/-- The node of the only document of a text, if there is one. -/
def onlyDocument (fuel : Nat) : Reading (Option Nat) := do
  if (← peek) = .streamEnd then return none
  else
    let root ← content fuel
    dropEnds fuel
    if (← peek) = .streamEnd then return some root
    else
      heading fuel
      refuse "a text goes on after its document"

end Reading

/-- The graph of the only document of a text, and its root, if there is one. -/
def Graph.ofSource (source : Source) : Except Fault (Graph × Option Nat) := do
  let lexer := Lexer.start source
  let fuel := 20 * lexer.size + 40
  let (root, r) ← (Reading.onlyDocument fuel).run ⟨lexer, Reading.defaultHandles, [], .empty⟩
  return (r.graph, root)

end Ostinato.Yaml

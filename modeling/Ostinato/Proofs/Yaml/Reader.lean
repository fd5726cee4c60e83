import Ostinato.Proofs.Yaml.Lexer
import Ostinato.Yaml.Graph.Reader

/-!
# Why a graph cannot be read

The nodes of a document are read from its tokens. Nothing is made a value on the way, so where the
graph cannot be read for the value of something, a token has a number that is too large.
-/

namespace Ostinato.Yaml

namespace Reading

variable {α β : Type} {chars : List Char}

/-- A step of reading that stays in a text, and finds what is no value only in its numbers. -/
abbrev Stays (chars : List Char) (m : Reading α) : Prop :=
  Keeps (fun r => r.lexer.Within chars) (fun _ => True) (HasLargeNumber chars) m

/-- To give a result stays within the text. -/
theorem stays_pure (a : α) : Stays chars (pure a) := Keeps.pure trivial

/-- To refuse stays within the text. -/
theorem stays_refuse (reason : String) : Stays chars (refuse reason : Reading α) :=
  fun _ _ => trivial

/-- What is nested too deeply ends the reading, whatever was to come next. -/
theorem stays_unlessTooDeep {c : Prop} [Decidable c] {next : PUnit → Reading α}
    (h : Stays chars (next ())) :
    Stays chars (if c then throw .tooDeep >>= next else next ()) :=
  Keeps.ite (fun _ _ _ => trivial) fun _ => h

/-- To read the state stays within the text. -/
theorem stays_get : Stays chars (get : Reading Reader) := keeps_get.mono fun _ _ => trivial

/-- Whatever is noted beside the lexer. -/
theorem stays_modify {f : Reader → Reader} (h : ∀ r, (f r).lexer = r.lexer) :
    Stays chars (modify f) :=
  keeps_modify fun r hr => (h r).symm ▸ hr

/-! ## Tokens -/

/-- To peek at the next token stays within the text. -/
theorem stays_peek : Stays chars peek := by
  refine keeps_get.bind fun r hr => ?_
  refine (Keeps.lift (Lexer.ends_fill hr)).bind fun lexer hlexer => ?_
  refine Keeps.andThen (keeps_set ?_) fun _ => stays_pure _
  exact hlexer

/-- To drop a token stays within the text. -/
theorem stays_drop : Stays chars drop := keeps_modify fun _ hr => hr.pass

/-- To accept a token stays within the text. -/
theorem stays_accept (t : Token) : Stays chars (accept t) := by
  refine stays_peek.andThen fun next => ?_
  split
  · exact stays_drop.andThen fun _ => stays_pure true
  · exact stays_pure false

/-- To look for tokens stays within the text. -/
theorem stays_sees (ts : List Token) : Stays chars (sees ts) :=
  stays_peek.andThen fun _ => stays_pure _

/-- To add a node stays within the text. -/
theorem stays_add (node : Node) : Stays chars (add node) := fun _ hr => ⟨trivial, hr⟩

/-- To complete a node stays within the text. -/
theorem stays_complete (n : Nat) (content : Content) : Stays chars (complete n content) :=
  stays_modify fun _ => rfl

/-! ## Properties of a node -/

/-- To resolve the handle of a tag stays within the text. -/
theorem stays_tagName (handle : Option String) (suffix : String) :
    Stays chars (tagName handle suffix) := by
  unfold tagName
  split
  · exact stays_pure _
  · refine stays_get.andThen fun r => ?_
    split
    · exact stays_pure _
    · exact stays_refuse _

/-- An anchor stays within the text. -/
theorem stays_anchor? : Stays chars anchor? := by
  refine stays_peek.andThen fun next => ?_
  split
  · exact stays_drop.andThen fun _ => stays_pure _
  · exact stays_pure _

/-- A tag stays within the text. -/
theorem stays_tag? : Stays chars tag? := by
  refine stays_peek.andThen fun next => ?_
  split
  · exact stays_drop.andThen fun _ => stays_pure _
  · exact stays_pure _

/-- The properties of a node stay within the text. -/
theorem stays_properties : Stays chars properties := by
  refine stays_anchor?.andThen fun first => stays_tag?.andThen fun tag => ?_
  -- the anchor may also stand behind the tag
  refine Keeps.ite (fun _ => stays_anchor?.andThen ?_) fun _ => (stays_pure first).andThen ?_
  all_goals
    intro anchor
    split
    · exact stays_pure _
    · exact (stays_tagName _ _).andThen fun _ => stays_pure _

/-- To define an anchor stays within the text. -/
theorem stays_define (anchor : Option String) (node : Node) : Stays chars (define anchor node) := by
  unfold define
  split
  · exact stays_add node
  · refine stays_get.andThen fun r => ?_
    exact Keeps.ite (fun _ => stays_refuse _) fun _ =>
      (stays_add node).andThen fun n => (stays_modify fun _ => rfl).andThen fun _ => stays_pure n

/-- To resolve an alias stays within the text. -/
theorem stays_resolve (name : String) : Stays chars (resolve name) := by
  refine stays_get.andThen fun r => ?_
  split
  · exact stays_pure _
  · exact stays_refuse _

/-- A scalar stays within the text. -/
theorem stays_scalar (anchor tag : Option String) (text : Text) (plain : Bool) :
    Stays chars (scalar anchor tag text plain) :=
  stays_define _ _

/-- An absent node stays within the text. -/
theorem stays_absent (anchor tag : Option String) : Stays chars (absent anchor tag) :=
  Keeps.ite (fun _ => stays_scalar _ _ _ _) fun _ => stays_refuse _

/-- A sequence stays within the text if its items do. -/
theorem stays_sequence (anchor tag : Option String) {items : Reading (List Nat)}
    (h : Stays chars items) : Stays chars (sequence anchor tag items) :=
  (stays_define _ _).andThen fun n => h.andThen fun _ => (stays_complete n _).andThen fun _ =>
    stays_pure n

/-- A mapping stays within the text if its entries do. -/
theorem stays_mapping (anchor tag : Option String) {entries : Reading (List (Nat × Nat))}
    (h : Stays chars entries) : Stays chars (mapping anchor tag entries) :=
  (stays_define _ _).andThen fun n => h.andThen fun _ => (stays_complete n _).andThen fun _ =>
    stays_pure n

/-! ## Nodes -/

/-- All readings of nodes and of the parts of collections that take no more than some steps. -/
structure NodesStay (chars : List Char) (fuel : Nat) : Prop where
  node : ∀ depth block unindented, Stays chars (node fuel depth block unindented)
  nodeUnless : ∀ depth ends block unindented,
    Stays chars (nodeUnless fuel depth ends block unindented)
  blockItems : ∀ depth items, Stays chars (blockItems fuel depth items)
  unindentedItems : ∀ depth items, Stays chars (unindentedItems fuel depth items)
  blockEntries : ∀ depth entries, Stays chars (blockEntries fuel depth entries)
  flowItems : ∀ depth first items, Stays chars (flowItems fuel depth first items)
  pairEntry : ∀ depth, Stays chars (pairEntry fuel depth)
  flowEntries : ∀ depth first entries, Stays chars (flowEntries fuel depth first entries)

namespace NodesStay

variable {fuel : Nat}

/-- Without fuel, everything stays within the text. -/
theorem zero : NodesStay chars 0 where
  node _ _ _ := by unfold Reading.node; exact stays_refuse _
  nodeUnless _ _ _ _ := by unfold Reading.nodeUnless; exact stays_refuse _
  blockItems _ _ := by unfold Reading.blockItems; exact stays_refuse _
  unindentedItems _ _ := by unfold Reading.unindentedItems; exact stays_refuse _
  blockEntries _ _ := by unfold Reading.blockEntries; exact stays_refuse _
  flowItems _ _ _ := by unfold Reading.flowItems; exact stays_refuse _
  pairEntry _ := by unfold Reading.pairEntry; exact stays_refuse _
  flowEntries _ _ _ := by unfold Reading.flowEntries; exact stays_refuse _

/-- A node stays within the text if all does with less fuel. -/
theorem node_succ (h : NodesStay chars fuel) (depth : Nat) (block unindented : Bool) :
    Stays chars (Reading.node (fuel + 1) depth block unindented) := by
  unfold Reading.node
  refine stays_unlessTooDeep (stays_peek.andThen fun first => ?_)
  split
  · exact stays_drop.andThen fun _ => stays_resolve _
  refine stays_properties.andThen fun r => stays_peek.andThen fun next => ?_
  split
  · exact Keeps.ite (fun _ => stays_sequence _ _ (h.unindentedItems _ _)) fun _ => stays_absent _ _
  · exact stays_drop.andThen fun _ => stays_scalar _ _ _ _
  · exact stays_sequence _ _ (stays_drop.andThen fun _ => h.flowItems _ _ _)
  · exact stays_mapping _ _ (stays_drop.andThen fun _ => h.flowEntries _ _ _)
  · exact Keeps.ite (fun _ => stays_sequence _ _ (stays_drop.andThen fun _ => h.blockItems _ _))
      fun _ => stays_absent _ _
  · exact Keeps.ite (fun _ => stays_mapping _ _ (stays_drop.andThen fun _ => h.blockEntries _ _))
      fun _ => stays_absent _ _
  · exact stays_absent _ _

/-- A node that may be absent stays within the text if all does with less fuel. -/
theorem nodeUnless_succ (h : NodesStay chars fuel) (depth : Nat) (ends : List Token)
    (block unindented : Bool) :
    Stays chars (Reading.nodeUnless (fuel + 1) depth ends block unindented) := by
  unfold Reading.nodeUnless
  exact (stays_sees ends).andThen fun _ => Keeps.ite (fun _ => stays_add _) fun _ => h.node _ _ _

/-- The items of a block sequence stay within the text if all does with less fuel. -/
theorem blockItems_succ (h : NodesStay chars fuel) (depth : Nat) (items : List Nat) :
    Stays chars (Reading.blockItems (fuel + 1) depth items) := by
  unfold Reading.blockItems
  refine (stays_accept _).andThen fun _ => Keeps.ite (fun _ => ?_) fun _ => ?_
  · exact (h.nodeUnless _ _ _ _).andThen fun _ => h.blockItems _ _
  · exact (stays_accept _).andThen fun _ =>
      Keeps.ite (fun _ => stays_pure _) fun _ => stays_refuse _

/-- Items that are not indented stay within the text if all does with less fuel. -/
theorem unindentedItems_succ (h : NodesStay chars fuel) (depth : Nat) (items : List Nat) :
    Stays chars (Reading.unindentedItems (fuel + 1) depth items) := by
  unfold Reading.unindentedItems
  refine (stays_accept _).andThen fun _ => Keeps.ite (fun _ => ?_) fun _ => stays_pure _
  exact (h.nodeUnless _ _ _ _).andThen fun _ => h.unindentedItems _ _

/-- The value behind a key, if there is one, and what comes behind it. -/
theorem behindKey (h : NodesStay chars fuel) (depth : Nat) (ends : List Token)
    (block unindented : Bool) {next : Nat → Reading α} (hnext : ∀ v, Stays chars (next v)) :
    Stays chars (do
      if ← accept .value then Reading.nodeUnless fuel depth ends block unindented >>= next
      else add .empty >>= next) :=
  (stays_accept _).andThen fun _ =>
    Keeps.ite (fun _ => (h.nodeUnless _ _ _ _).andThen hnext) fun _ => (stays_add _).andThen hnext

/-- The entries of a block mapping stay within the text if all does with less fuel. -/
theorem blockEntries_succ (h : NodesStay chars fuel) (depth : Nat) (entries : List (Nat × Nat)) :
    Stays chars (Reading.blockEntries (fuel + 1) depth entries) := by
  unfold Reading.blockEntries
  refine (stays_accept _).andThen fun _ => Keeps.ite (fun _ => ?_) fun _ => ?_
  · exact (h.nodeUnless _ _ _ _).andThen fun _ =>
      h.behindKey _ _ _ _ fun _ => h.blockEntries _ _
  · exact (stays_accept _).andThen fun _ =>
      Keeps.ite (fun _ => stays_pure _) fun _ => stays_refuse _

/-- The comma in front of each part of a collection in brackets but the first. -/
theorem behindComma (first : Bool) (reason : String) {next : PUnit → Reading α}
    (hnext : Stays chars (next ())) :
    Stays chars (if !first then do
        -- the rest stands behind the refusal too, though it is never reached
        if !(← accept .flowEntry) then refuse reason >>= next else next ()
      else next ()) :=
  Keeps.ite (fun _ => (stays_accept _).andThen fun _ =>
    Keeps.ite (fun _ => (stays_refuse _).andThen fun _ => hnext) fun _ => hnext) fun _ => hnext

/-- The items of a flow sequence stay within the text if all does with less fuel. -/
theorem flowItems_succ (h : NodesStay chars fuel) (depth : Nat) (first : Bool) (items : List Nat) :
    Stays chars (Reading.flowItems (fuel + 1) depth first items) := by
  unfold Reading.flowItems
  refine (stays_accept _).andThen fun _ => Keeps.ite (fun _ => stays_pure _) fun _ => ?_
  refine behindComma first _ ((stays_accept _).andThen fun _ => Keeps.ite (fun _ => ?_) fun _ => ?_)
  · exact (stays_mapping _ _ (h.pairEntry _)).andThen fun _ => h.flowItems _ _ _
  · refine (stays_accept _).andThen fun _ => Keeps.ite (fun _ => stays_pure _) fun _ => ?_
    exact (h.node _ _ _).andThen fun _ => h.flowItems _ _ _

/-- The entry of a single pair stays within the text if all does with less fuel. -/
theorem pairEntry_succ (h : NodesStay chars fuel) (depth : Nat) :
    Stays chars (Reading.pairEntry (fuel + 1) depth) := by
  unfold Reading.pairEntry
  refine stays_unlessTooDeep ((h.nodeUnless _ _ _ _).andThen fun _ => ?_)
  exact h.behindKey _ _ _ _ fun _ => stays_pure _

/-- The entries of a flow mapping stay within the text if all does with less fuel. -/
theorem flowEntries_succ (h : NodesStay chars fuel) (depth : Nat) (first : Bool)
    (entries : List (Nat × Nat)) :
    Stays chars (Reading.flowEntries (fuel + 1) depth first entries) := by
  unfold Reading.flowEntries
  refine (stays_accept _).andThen fun _ => Keeps.ite (fun _ => stays_pure _) fun _ => ?_
  refine behindComma first _ ((stays_accept _).andThen fun _ => Keeps.ite (fun _ => ?_) fun _ => ?_)
  · exact (h.nodeUnless _ _ _ _).andThen fun _ =>
      h.behindKey _ _ _ _ fun _ => h.flowEntries _ _ _
  · refine (stays_accept _).andThen fun _ => Keeps.ite (fun _ => stays_pure _) fun _ => ?_
    exact (h.node _ _ _).andThen fun _ => (stays_add _).andThen fun _ => h.flowEntries _ _ _

/-- With more fuel, everything stays within the text if it does with less. -/
theorem succ (h : NodesStay chars fuel) : NodesStay chars (fuel + 1) where
  node := h.node_succ
  nodeUnless := h.nodeUnless_succ
  blockItems := h.blockItems_succ
  unindentedItems := h.unindentedItems_succ
  blockEntries := h.blockEntries_succ
  flowItems := h.flowItems_succ
  pairEntry := h.pairEntry_succ
  flowEntries := h.flowEntries_succ

end NodesStay

/-- However many steps they take. -/
theorem nodesStay (chars : List Char) (fuel : Nat) : NodesStay chars fuel := by
  induction fuel with
  | zero => exact .zero
  | succ fuel ih => exact ih.succ

/-! ## Documents -/

/-- Directives stay within the text. -/
theorem stays_directives (fuel : Nat) (versioned : Bool) (handles : List (String × String)) :
    Stays chars (directives fuel versioned handles) := by
  induction fuel generalizing versioned handles with
  | zero => exact stays_pure _
  | succ fuel ih =>
    unfold directives
    refine stays_peek.andThen fun next => ?_
    split
    · refine stays_drop.andThen fun _ => ?_
      exact Keeps.ite (fun _ => stays_refuse _) fun _ =>
        Keeps.ite (fun _ => stays_refuse _) fun _ => ih _ _
    · exact stays_drop.andThen fun _ => Keeps.ite (fun _ => stays_refuse _) fun _ => ih _ _
    · exact stays_drop.andThen fun _ => ih _ _
    · exact stays_pure _

/-- The ends of documents stay within the text. -/
theorem stays_dropEnds (fuel : Nat) : Stays chars (dropEnds fuel) := by
  induction fuel with
  | zero => exact stays_pure _
  | succ fuel ih =>
    exact (stays_accept _).andThen fun _ => Keeps.ite (fun _ => ih) fun _ => stays_pure _

/-- The heading of a document stays within the text. -/
theorem stays_heading (fuel : Nat) : Stays chars (heading fuel) := by
  refine (stays_directives _ _ _).andThen fun _ => Keeps.andThen (stays_modify ?_) fun _ => ?_
  · exact fun _ => rfl
  · exact (stays_accept _).andThen fun _ =>
      Keeps.ite (fun _ => stays_refuse _) fun _ => stays_pure _

/-- The content of a document stays within the text. -/
theorem stays_content (fuel : Nat) : Stays chars (content fuel) := by
  unfold content
  have hnode := (nodesStay chars fuel).node 0 true false
  refine stays_peek.andThen fun next => ?_
  split
  -- a document may have a heading and nothing behind it
  · refine (stays_heading fuel).andThen fun _ => stays_peek.andThen fun next => ?_
    split <;> first | exact stays_add _ | exact hnode
  · refine (stays_heading fuel).andThen fun _ => stays_peek.andThen fun next => ?_
    split <;> first | exact stays_add _ | exact hnode
  · exact hnode

/-- The only document stays within the text. -/
theorem stays_onlyDocument (fuel : Nat) : Stays chars (onlyDocument fuel) := by
  refine stays_peek.andThen fun next => Keeps.ite (fun _ => stays_pure _) fun _ => ?_
  refine (stays_content fuel).andThen fun root => (stays_dropEnds fuel).andThen fun _ => ?_
  refine stays_peek.andThen fun next => Keeps.ite (fun _ => stays_pure _) fun _ => ?_
  exact (stays_heading fuel).andThen fun _ => stays_refuse _

end Reading

/-- Where the graph of a text cannot be read for the value of something, a number is too large. -/
theorem ends_graph_ofSource {source : Source}
    (hfault : ∀ fault, source.fault = some fault → fault.IsNoScalar) :
    Ends (fun _ => True) (HasLargeNumber source.chars) (Graph.ofSource source) := by
  unfold Graph.ofSource
  have hstart := Lexer.within_start hfault
  refine Ends.andThen ((Reading.stays_onlyDocument _ _ hstart).mono (fun _ _ => trivial) id) ?_
  exact fun _ => trivial

end Ostinato.Yaml

import Ostinato.Proofs.Yaml.Ending
import Ostinato.Yaml.Graph.Value

/-!
# Why a graph has no value

A graph changes while its values are built: merge keys are followed, and value keys become texts.
`Merged` says what this leaves as it was. So where something is no value, a scalar of the graph, as
it was read, does not spell a value of a tag.
-/

namespace Ostinato.Yaml

/-- Whether a text spells a value of a tag. All tags but four are content with any text. -/
def Spells : Tag → List Char → Prop
  | .bool, cs => ∃ b, readBool cs = .ok b
  | .int, cs => ∃ i, readInt cs = .ok i
  | .float, cs => ∃ x, readFloat cs = .ok x
  | .timestamp, cs => ∃ v, readTimestamp cs = .ok v
  | _, _ => True

namespace Graph

variable {g₀ g : Graph} {bad : Prop}

/-- A node that gives the text of a node: the node itself, or for a mapping the value of a value
key. -/
def StandsFor (g : Graph) (m n : Nat) : Prop :=
  m = n ∨ g.isMapping n = true ∧ ∃ p k, (k, m) ∈ g.entries p ∧ g.tag k = .value

/-- A node that has no value of its tag: its text does not spell one, or it is a collection where a
date has to be. -/
inductive Misspelled (g : Graph) : Prop
  | scalar {n m : Nat} {text : Text} (hstands : g.StandsFor m n)
      (htext : (g.node m).content = .scalar text) (hspells : ¬ Spells (g.tag n) text.chars)
  | collection {n : Nat} (htag : g.tag n = .timestamp)
      (hcontent : ∀ text, (g.node n).content ≠ .scalar text)

/-! ## Following merge keys -/

/-- A graph of which some merge keys have been followed. -/
structure Merged (g₀ g : Graph) : Prop where
  tag : ∀ n, g.tag n = g₀.tag n ∨ g₀.tag n = .value ∧ g.tag n = .str
  scalar : ∀ n text, (g.node n).content = .scalar text ↔ (g₀.node n).content = .scalar text
  isMapping : ∀ n, g.isMapping n = g₀.isMapping n
  entries : ∀ n, ∀ e ∈ g.entries n, ∃ p, e ∈ g₀.entries p

/-- Every graph is merged from itself. -/
theorem Merged.refl (g : Graph) : g.Merged g where
  tag _ := .inl rfl
  scalar _ _ := Iff.rfl
  isMapping _ := rfl
  entries n _ he := ⟨n, he⟩

/-- What is set as one node changes no other. -/
theorem node_set (g : Graph) (n m : Nat) (x : Node) :
    (g.set n x).node m = if m = n ∧ n < g.nodes.size then x else g.node m := by
  simp only [node, set, Array.getElem?_setIfInBounds]
  by_cases hmn : n = m
  · subst hmn
    by_cases hn : n < g.nodes.size
    · simp [hn]
    · simp [hn]
  · have hne : ¬ m = n := fun h => hmn h.symm
    simp [hmn, hne]

/-- A node is a mapping if its content is one. -/
theorem isMapping_iff {n : Nat} :
    g.isMapping n = true ↔ ∃ es, (g.node n).content = .mapping es := by
  rw [Graph.isMapping]
  cases (g.node n).content <;> simp

/-- A graph in which one node differs in its content alone, and that is the mapping of other
entries of the graph. -/
theorem Merged.setEntries (h : g₀.Merged g) {n : Nat} (hn : g₀.isMapping n = true)
    {es : List (Nat × Nat)} (hes : ∀ e ∈ es, ∃ p, e ∈ g₀.entries p) :
    g₀.Merged (g.setEntries n es) := by
  obtain ⟨es₀, hes₀⟩ := isMapping_iff.mp hn
  -- a number that no node has changes nothing
  have hnode : ∀ m, (g.setEntries n es).node m = g.node m ∨
      m = n ∧ (g.setEntries n es).node m = { g.node n with content := .mapping es } := by
    intro m
    rw [Graph.setEntries, node_set]
    split
    next hm => exact .inr ⟨hm.1, rfl⟩
    next => exact .inl rfl
  refine ⟨fun m => ?tags, fun m text => ?scalars, fun m => ?mappings, fun m e he => ?members⟩
  case tags =>
    have htag : (g.setEntries n es).tag m = g.tag m := by
      obtain hm | ⟨rfl, hm⟩ := hnode m <;> rw [Graph.tag, hm, Graph.tag]
    rw [htag]
    exact h.tag m
  case scalars =>
    obtain hm | ⟨rfl, hm⟩ := hnode m
    · rw [hm]
      exact h.scalar m text
    · rw [hm, hes₀]
      simp
  case mappings =>
    obtain hm | ⟨rfl, hm⟩ := hnode m
    · rw [Graph.isMapping, hm]
      exact h.isMapping m
    · rw [hn]
      exact isMapping_iff.mpr ⟨es, by rw [hm]⟩
  case members =>
    rw [Graph.entries] at he
    obtain hm | ⟨rfl, hm⟩ := hnode m
    · rw [hm] at he
      exact h.entries m e he
    · rw [hm] at he
      exact hes e he

/-- All tags that a text can fail to spell a value of stay what they are. -/
theorem Merged.tag_eq (h : g₀.Merged g) {n : Nat} {t : Tag} (hn : g.tag n = t) (ht : t ≠ .str) :
    g₀.tag n = t := by
  obtain hsame | ⟨-, hstr⟩ := h.tag n
  · rw [← hsame, hn]
  · exact absurd (hn.symm.trans hstr) ht

/-- A value key may become a text. -/
theorem Merged.setTag (h : g₀.Merged g) {k : Nat} (hk : g.tag k = .value) :
    g₀.Merged (g.setTag k .str) := by
  have hk₀ : g₀.tag k = .value := h.tag_eq hk (by decide)
  have hnode : ∀ m, (g.setTag k .str).node m = g.node m ∨
      m = k ∧ (g.setTag k .str).node m = { g.node k with tag := .str } := by
    intro m
    rw [Graph.setTag, node_set]
    split
    next hm => exact .inr ⟨hm.1, rfl⟩
    next => exact .inl rfl
  have hcontent : ∀ m, ((g.setTag k .str).node m).content = (g.node m).content := by
    intro m
    obtain hm | ⟨rfl, hm⟩ := hnode m <;> rw [hm]
  refine ⟨fun m => ?_, fun m text => ?_, fun m => ?_, fun m e he => ?_⟩
  · obtain hm | ⟨rfl, hm⟩ := hnode m
    · rw [Graph.tag, hm]
      exact h.tag m
    · exact .inr ⟨hk₀, by rw [Graph.tag, hm]⟩
  · rw [hcontent]
    exact h.scalar m text
  · rw [Graph.isMapping, hcontent]
    exact h.isMapping m
  · rw [Graph.entries, hcontent] at he
    exact h.entries m e he

/-- To settle the keys of a mapping keeps the graph merged. -/
theorem Merged.settleKeys (h : g₀.Merged g) (es : List (Nat × Nat)) :
    g₀.Merged (g.settleKeys es) := by
  induction es generalizing g with
  | nil => exact h
  | cons e es ih =>
    obtain ⟨k, v⟩ := e
    unfold Graph.settleKeys
    split
    next hk => exact ih (h.setTag hk)
    next => exact ih h

/-- What is left by a merge key has been there. -/
theorem mem_of_mem_takeMerge {es rest : List (Nat × Nat)} {target : Nat}
    (h : g.takeMerge es = some (target, rest)) {e : Nat × Nat} (he : e ∈ rest) : e ∈ es := by
  induction es generalizing target rest with
  | nil => cases h
  | cons first es ih =>
    obtain ⟨k, v⟩ := first
    unfold takeMerge at h
    split at h
    next =>
      cases h
      exact List.mem_cons_of_mem _ he
    next =>
      obtain ⟨⟨target', rest'⟩, hrest', heq⟩ := Option.map_eq_some_iff.mp h
      cases heq
      rcases List.mem_cons.mp he with rfl | hmem
      · exact List.mem_cons_self
      · exact List.mem_cons_of_mem _ (ih hrest' hmem)

/-- A graph on the way, and entries that are brought in. -/
def MergedWith (g₀ : Graph) (state : Graph × List (List (Nat × Nat))) : Prop :=
  g₀.Merged state.1 ∧ ∀ es ∈ state.2, ∀ e ∈ es, ∃ p, e ∈ g₀.entries p

/-- Merge keys are followed without a look at what scalars spell. -/
theorem ends_mergeFor (h : g₀.Merged g) (fuel room : Nat) {n : Nat} (hn : g₀.isMapping n = true)
    {merged : List (Nat × Nat)} (hmerged : ∀ e ∈ merged, ∃ p, e ∈ g₀.entries p) :
    Ends g₀.Merged bad (mergeFor fuel room n merged g) := by
  induction fuel generalizing g room n merged with
  | zero => exact h
  | succ fuel ih =>
    unfold mergeFor
    split
    · -- all merge keys have been followed
      have hsettled := h.settleKeys (g.entries n)
      dsimp only
      split
      · exact hsettled
      · refine hsettled.setEntries hn fun e he => ?_
        rcases List.mem_append.mp he with hin | hown
        · exact hmerged e hin
        · exact hsettled.entries n e hown
    next target rest hmerge =>
      refine Ends.ite (fun _ => trivial) fun _ => ?_
      have hleft := h.setEntries hn fun e he => h.entries n e (mem_of_mem_takeMerge hmerge he)
      dsimp only
      generalize g.setEntries n rest = left at hleft ⊢
      split
      next es hes =>
        have htarget : g₀.isMapping target = true :=
          (hleft.isMapping target).symm.trans (isMapping_iff.mpr ⟨es, hes⟩)
        refine (ih hleft _ htarget (by simp)).bind fun g' hg' => ih hg' _ hn fun e he => ?_
        rcases List.mem_append.mp he with hin | hnew
        · exact hmerged e hin
        · exact hg'.entries target e hnew
      next items _ =>
        -- every mapping of the sequence is merged in turn, and its entries are kept in a list
        have hstart : MergedWith g₀ (left, []) := ⟨hleft, by simp⟩
        refine (Ends.foldlM hstart fun state hstate item _ => ?_).bind fun state hstate => ?_
        · obtain ⟨g', lists⟩ := state
          refine Ends.ite (fun hitem => ?_) fun _ => trivial
          have hitem₀ : g₀.isMapping item = true := (hstate.1.isMapping item).symm.trans hitem
          refine (ih hstate.1 _ hitem₀ (by simp)).bind fun g'' hg'' => ⟨hg'', fun es hes => ?_⟩
          rcases List.mem_cons.mp hes with rfl | hearlier
          · exact hg''.entries item
          · exact hstate.2 es hearlier
        · refine ih hstate.1 _ hn fun e he => ?_
          rcases List.mem_append.mp he with hin | hnew
          · exact hmerged e hin
          · obtain ⟨es, hes, hmem⟩ := List.mem_flatten.mp hnew
            exact hstate.2 es hes e hmem
      · exact trivial

/-- To merge a mapping keeps the graph merged. -/
theorem ends_merge (h : g₀.Merged g) (mergeKeys room : Nat) {n : Nat}
    (hn : g₀.isMapping n = true) : Ends g₀.Merged bad (g.merge mergeKeys room n) :=
  ends_mergeFor h _ _ hn (by simp)

/-! ## The text of a node -/

/-- The text of a node is that of a scalar which stands for it. -/
theorem ends_scalarText (h : g₀.Merged g) (room n : Nat) :
    Ends (fun text => ∃ m, g₀.StandsFor m n ∧ (g₀.node m).content = .scalar text) bad
      (g.scalarText room n) := by
  induction room generalizing n with
  | zero => exact trivial
  | succ room ih =>
    unfold Graph.scalarText
    split
    next text htext => exact ⟨n, .inl rfl, (h.scalar n text).mp htext⟩
    · exact trivial
    next es hes =>
      split
      next k v hfound =>
        -- a mapping has the text of its value key, which may be a mapping again
        have hmapping : g₀.isMapping n = true :=
          (h.isMapping n).symm.trans (isMapping_iff.mpr ⟨es, hes⟩)
        have hentry : (k, v) ∈ g.entries n := by
          rw [Graph.entries, hes]
          exact List.mem_of_find?_eq_some hfound
        have hkey : g₀.tag k = .value :=
          h.tag_eq (by simpa using List.find?_some hfound) (by decide)
        refine (ih v).mono (fun text htext => ?_) id
        obtain ⟨m, hstands, hm⟩ := htext
        refine ⟨m, .inr ⟨hmapping, ?_⟩, hm⟩
        obtain rfl | ⟨-, hunder⟩ := hstands
        · obtain ⟨p, hp⟩ := h.entries n _ hentry
          exact ⟨p, k, hp, hkey⟩
        · exact hunder
      · exact trivial

end Graph

/-! ## Building values -/

namespace Builder

variable {α : Type} {g₀ : Graph}

/-- A step of building that leaves a graph as it was but for its merge keys, and finds what is no
value only in what the graph spells. -/
abbrev Builds (g₀ : Graph) (m : Builder α) : Prop :=
  Keeps (fun b => g₀.Merged b.graph) (fun _ => True) g₀.Misspelled m

/-- To give a result builds. -/
theorem builds_pure (a : α) : Builds g₀ (pure a) := Keeps.pure trivial

/-- To refuse builds. -/
theorem builds_refuse (reason : String) : Builds g₀ (refuse reason : Builder α) :=
  fun _ _ => trivial

/-- A change that leaves the graph builds. -/
theorem builds_modify {f : Building → Building} (h : ∀ b, (f b).graph = b.graph) :
    Builds g₀ (modify f) :=
  keeps_modify fun b hb => (h b).symm ▸ hb

/-- A text that stands for a node. -/
def IsTextOf (g : Graph) (n : Nat) (text : Text) : Prop :=
  ∃ m, g.StandsFor m n ∧ (g.node m).content = .scalar text

/-- The text of a scalar is that of a node of the document. -/
theorem keeps_scalarText (n : Nat) :
    Keeps (fun b => g₀.Merged b.graph) (IsTextOf g₀ n) g₀.Misspelled (scalarText n) := by
  refine keeps_get.bind fun b hb => ?_
  have hends : Ends (IsTextOf g₀ n) False (b.graph.scalarText maxDepth n) :=
    Graph.ends_scalarText hb maxDepth n
  split
  next text htext => exact Keeps.pure (hends.result htext)
  next fault hfault => exact keeps_throw (Ends.isNoScalar (hfault ▸ hends))

/-- To read the text of a scalar builds. -/
theorem builds_scalarText (n : Nat) : Builds g₀ (scalarText n) :=
  (keeps_scalarText n).mono fun _ _ => trivial

/-- The characters of a scalar are those of a node of the document. -/
theorem keeps_scalarChars (n : Nat) :
    Keeps (fun b => g₀.Merged b.graph) (fun cs => ∃ text, IsTextOf g₀ n text ∧ text.chars = cs)
      g₀.Misspelled (scalarChars n) :=
  (keeps_scalarText n).bind fun text htext => Keeps.pure ⟨text, htext, rfl⟩

/-- A text that cannot be read under its tag is misspelled. -/
theorem misspelled_of_text {n : Nat} {t : Tag} {cs : List Char} (htag : g₀.tag n = t)
    (hcs : ∃ text, IsTextOf g₀ n text ∧ text.chars = cs) (hspells : ¬ Spells t cs) :
    g₀.Misspelled := by
  obtain ⟨text, ⟨m, hstands, hm⟩, rfl⟩ := hcs
  exact .scalar hstands hm (htag ▸ hspells)

/-- A text is read under a tag that it has to spell a value of. -/
theorem builds_read {n : Nat} {t : Tag} (htag : g₀.tag n = t) {read : List Char → Except Fault α}
    (hread : ∀ cs, (¬ ∃ a, read cs = .ok a) → ¬ Spells t cs) (f : α → Value) :
    Builds g₀ (do return f (← read (← scalarChars n))) := by
  refine (keeps_scalarChars n).bind fun cs hcs => ?_
  have hends : Ends (fun _ => True) g₀.Misspelled (read cs) :=
    ends_of_not_ok fun hnot => misspelled_of_text htag hcs (hread cs hnot)
  exact (Keeps.lift hends).andThen fun _ => builds_pure _

/-- To read a node of that tag as a timestamp builds. -/
theorem builds_timestamp {n : Nat} (hn : g₀.tag n = .timestamp) : Builds g₀ (timestamp n) := by
  refine (keeps_scalarChars n).bind fun cs hcs => keeps_get.bind fun b hb => ?_
  split
  · exact Keeps.lift (ends_of_not_ok fun hnot => misspelled_of_text hn hcs hnot)
  next hcontent =>
    exact keeps_throw_scalar (.collection hn fun text htext =>
      hcontent text ((hb.scalar n text).mpr htext))

/-- To read bytes never meets the fault of a scalar. -/
theorem ends_readBinary {bad : Prop} (cs : List Char) :
    Ends (fun _ => True) bad (readBinary cs) := by
  unfold readBinary
  split
  · exact trivial
  · split <;> exact trivial

/-- To announce a collection builds. -/
theorem builds_announce (n : Nat) : Builds g₀ (announce n) :=
  Keeps.andThen (builds_modify fun _ => rfl) fun _ => builds_pure _

/-- The value of a scalar is that of its text, the value of a collection comes later. -/
theorem builds_start (n : Nat) : Builds g₀ (start n) := by
  refine keeps_get.bind fun b hb => ?_
  split
  · exact (builds_scalarText n).andThen fun _ => builds_pure _
  next htag => exact builds_read (hb.tag_eq htag (by decide)) (fun _ hnot => hnot) .bool
  next htag => exact builds_read (hb.tag_eq htag (by decide)) (fun _ hnot => hnot) .int
  next htag => exact builds_read (hb.tag_eq htag (by decide)) (fun _ hnot => hnot) .float
  · refine (keeps_scalarChars n).bind fun cs _ => ?_
    exact (Keeps.lift (ends_readBinary cs)).andThen fun _ => builds_pure _
  next htag => exact builds_timestamp (hb.tag_eq htag (by decide))
  · exact (builds_scalarText n).andThen fun _ => builds_pure _
  · exact builds_announce n
  · exact builds_announce n
  · exact builds_announce n
  · exact builds_announce n
  · exact builds_announce n
  · exact builds_refuse _
  · exact builds_refuse _
  · exact builds_refuse _

/-- To read a value builds. -/
theorem builds_value (n : Nat) : Builds g₀ (value n) := by
  refine keeps_get.bind fun b _ => ?_
  split
  · exact builds_pure _
  · exact (builds_start n).andThen fun v => Keeps.andThen (builds_modify fun _ => rfl) fun _ =>
      builds_pure v

/-! ## Filling collections -/

/-- To read a key builds. -/
theorem builds_key (n : Nat) : Builds g₀ (key n) := by
  refine (builds_value n).andThen fun v => Keeps.ite (fun _ => builds_refuse _) fun _ => ?_
  refine keeps_get.bind fun b _ => ?_
  split
  · exact builds_pure _
  · exact builds_pure _

/-- The merge keys of a mapping are followed before its entries are built. -/
theorem builds_entries (n : Nat) : Builds g₀ (entries n) := by
  refine keeps_get.bind fun b hb => Keeps.ite (fun _ => builds_refuse _) fun hn => ?_
  have hmapping : g₀.isMapping n = true := by
    rw [← hb.isMapping n]
    simpa using hn
  refine keeps_get.bind fun b hb => ?_
  have hmerge : Ends g₀.Merged False (b.graph.merge b.mergeKeys maxDepth n) :=
    Graph.ends_merge hb _ _ hmapping
  split
  next fault hfault => exact keeps_throw (Ends.isNoScalar (hfault ▸ hmerge))
  next graph hgraph =>
    refine Keeps.andThen (keeps_set (hmerge.result hgraph)) fun _ => ?_
    refine Keeps.andThen (Keeps.mapM fun e _ => ?_) fun _ => builds_pure _
    exact (builds_key e.1).andThen fun k => (builds_value e.2).andThen fun _ => builds_pure _

/-- To read the items of a sequence builds. -/
theorem builds_items (n : Nat) : Builds g₀ (items n) := by
  refine keeps_get.bind fun b _ => ?_
  split
  · exact builds_pure _
  · exact builds_refuse _

/-- To read a pair builds. -/
theorem builds_pair (n : Nat) : Builds g₀ (pair n) := by
  refine keeps_get.bind fun b _ => ?_
  split
  · exact (builds_value _).andThen fun _ => (builds_value _).andThen fun _ => builds_pure _
  · exact builds_refuse _

/-- To fill a collection builds. -/
theorem builds_fill (n : Nat) : Builds g₀ (fill n) := by
  refine keeps_get.bind fun b _ => ?_
  split
  · exact (builds_items n).andThen fun _ =>
      (Keeps.mapM fun m _ => builds_pair m).andThen fun _ => builds_pure _
  · exact (builds_items n).andThen fun _ =>
      (Keeps.mapM fun m _ => builds_pair m).andThen fun _ => builds_pure _
  · exact (builds_items n).andThen fun _ =>
      (Keeps.mapM fun m _ => builds_value m).andThen fun _ => builds_pure _
  · exact (builds_entries n).andThen fun _ => builds_pure _
  · exact (builds_entries n).andThen fun _ => builds_pure _

/-- To fill the collections of all levels builds. -/
theorem builds_fillLevels (fuel : Nat) (level : List Nat) : Builds g₀ (fillLevels fuel level) := by
  induction fuel generalizing level with
  | zero => exact builds_pure _
  | succ fuel ih =>
    refine Keeps.andThen (Keeps.forM fun n _ => ?_) fun _ => keeps_get.bind fun b _ => ?_
    · exact (builds_fill n).andThen fun v => builds_modify fun _ => rfl
    · exact Keeps.ite (fun _ => builds_pure _) fun _ =>
        Keeps.andThen (builds_modify fun _ => rfl) fun _ => ih _

/-- To build a whole value builds. -/
theorem builds_whole (n : Nat) : Builds g₀ (whole n) :=
  (builds_value n).andThen fun v => keeps_get.bind fun _ _ => (builds_fillLevels _ _).andThen
    fun _ => builds_pure v

end Builder

/-- Where a graph has no value for the value of something, one of its nodes is misspelled. -/
theorem ends_graph_document (g : Graph) (root : Nat) :
    Ends (fun _ => True) g.Misspelled (g.document root) := by
  refine Ends.andThen (Ends.mono (Builder.builds_whole root _ (Graph.Merged.refl g))
    (fun _ _ => trivial) id) ?_
  exact fun _ => trivial

end Ostinato.Yaml

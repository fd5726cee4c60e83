import Ostinato.Yaml.Graph.Basic

/-!
# Merge keys

A merge key puts the entries of the mappings that it names in front of a mapping's own, so that its
own win. It is followed once and then gone; a mapping whose merge keys are being followed counts,
inside itself, with the entries that it has at that point. A value key that merging passes becomes a
text.
-/

namespace Ostinato.Yaml.Graph

/-- The value of the first merge key of some entries, and the other entries. -/
def takeMerge (g : Graph) : List (Nat × Nat) → Option (Nat × List (Nat × Nat))
  | [] => none
  | (k, v) :: rest =>
    if g.tag k = .merge then some (v, rest)
    else (takeMerge g rest).map fun (target, rest) => (target, (k, v) :: rest)

/-- The value keys of a mapping as texts. -/
def settleKeys (g : Graph) : List (Nat × Nat) → Graph
  | [] => g
  | (k, _) :: rest => (if g.tag k = .value then g.setTag k .str else g).settleKeys rest

/-- Follows the merge keys of a mapping, one step for each merge key of the graph at most, and no
more than `room` mappings deep. `merged` are the entries that have been brought in so far. Of
several mappings under one merge key the first wins, so its entries come last. -/
def mergeFor : Nat → Nat → Nat → List (Nat × Nat) → Graph → Except Fault Graph
  | 0, _, _, _, g => .ok g
  | fuel + 1, room, n, merged, g => do
    match g.takeMerge (g.entries n) with
    | none =>
      let g := g.settleKeys (g.entries n)
      return if merged.isEmpty then g else g.setEntries n (merged ++ g.entries n)
    | some (target, rest) =>
      if room = 0 then throw .tooDeep
      let g := g.setEntries n rest
      match (g.node target).content with
      | .mapping _ =>
        let g ← mergeFor fuel (room - 1) target [] g
        mergeFor fuel room n (merged ++ g.entries target) g
      | .sequence items =>
        let step := fun (state : Graph × List (List (Nat × Nat))) (item : Nat) => do
          let (g, lists) := state
          if g.isMapping item then
            let g ← mergeFor fuel (room - 1) item [] g
            return (g, g.entries item :: lists)
          else throw (.document "a merge key names something that is no mapping")
        let (g, lists) ← items.foldlM step (g, [])
        mergeFor fuel room n (merged ++ lists.flatten) g
      | .scalar _ => throw (.document "a merge key names something that is no mapping")

/-- The number of merge keys in a graph. -/
def mergeCount (g : Graph) : Nat :=
  g.nodes.foldl (fun count node =>
    match node.content with
    | .mapping entries => count + (entries.filter fun e => g.tag e.1 = .merge).length
    | _ => count) 0

/-- Follows the merge keys of a mapping in a graph that had so many when it was read. -/
def merge (g : Graph) (mergeKeys room n : Nat) : Except Fault Graph :=
  mergeFor (mergeKeys + 1) room n [] g

end Ostinato.Yaml.Graph

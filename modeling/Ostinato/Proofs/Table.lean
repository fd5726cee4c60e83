import Mathlib.Data.List.Nodup
import Mathlib.Tactic.SplitIfs
import Ostinato.Value.Basic

/-!
# Tables

A table is a list of entries, each a key and its value. Looking a key up finds the first entry under
it. Where no key comes twice, every entry is found (`lookup_eq_some_iff_mem`), so it does not matter
in which order they stand (`lookup_eq_of_perm`), and what is found tells the entries
(`perm_of_lookup_eq`). Tables that are made by setting one key after the other are of this kind
(`Value.nodup_keys_distinctEntries`).
-/

namespace Ostinato

section Lookup

variable {κ α : Type} [DecidableEq κ] {entries entries' : List (κ × α)} {key : κ} {value : α}

/-- What is found is in the table. -/
theorem mem_of_lookup (h : entries.lookup key = some value) : (key, value) ∈ entries := by
  obtain ⟨before, after, rfl, -⟩ := List.lookup_eq_some_iff.mp h
  exact List.mem_append_right before List.mem_cons_self

/-- In a table without repeated keys a value is found just if it is an entry. -/
theorem lookup_eq_some_iff_mem (h : (entries.map Prod.fst).Nodup) :
    entries.lookup key = some value ↔ (key, value) ∈ entries := by
  refine ⟨mem_of_lookup, fun hmem => ?_⟩
  obtain ⟨before, after, rfl⟩ := List.append_of_mem hmem
  refine List.lookup_eq_some_iff.mpr ⟨before, after, rfl, fun e he => ?_⟩
  rw [List.map_append, List.map_cons] at h
  have hdisjoint := List.disjoint_of_nodup_append h (List.mem_map_of_mem he)
  rw [bne_iff_ne]
  exact fun heq => hdisjoint (heq ▸ List.mem_cons_self)

/-- The order of a table without repeated keys does not matter. -/
theorem lookup_eq_of_perm (h : (entries.map Prod.fst).Nodup) (hperm : entries'.Perm entries)
    (key : κ) : entries'.lookup key = entries.lookup key := by
  have h' : (entries'.map Prod.fst).Nodup := (hperm.map Prod.fst).nodup_iff.mpr h
  ext value
  rw [lookup_eq_some_iff_mem h, lookup_eq_some_iff_mem h', hperm.mem_iff]

/-- Tables that answer alike have the same entries. -/
theorem perm_of_lookup_eq (h : (entries.map Prod.fst).Nodup) (h' : (entries'.map Prod.fst).Nodup)
    (hlookup : ∀ key, entries'.lookup key = entries.lookup key) : entries'.Perm entries := by
  rw [List.perm_ext_iff_of_nodup (.of_map _ h') (.of_map _ h)]
  rintro ⟨key, value⟩
  rw [← lookup_eq_some_iff_mem h, ← lookup_eq_some_iff_mem h', hlookup]

end Lookup

/-! ## Keys that are set -/

namespace Value

section Entries

variable {κ α : Type} [DecidableEq κ]

/-- A new key goes behind all others. -/
theorem insertEntry_of_not_mem {key : κ} {entries : List (κ × α)}
    (h : key ∉ entries.map Prod.fst) (value : α) :
    insertEntry (fun s t => s = t) key value entries = entries ++ [(key, value)] := by
  induction entries with
  | nil => rfl
  | cons e entries ih =>
    rw [List.map_cons, List.mem_cons, not_or] at h
    rw [insertEntry, if_neg (by simpa using Ne.symm h.1), ih h.2, List.cons_append]

/-- The keys of a mapping with a value set: those that were there, and the new one if it is new. -/
theorem keys_insertEntry (key : κ) (value : α) (entries : List (κ × α)) :
    (insertEntry (fun s t => s = t) key value entries).map Prod.fst
      = if key ∈ entries.map Prod.fst then entries.map Prod.fst
        else entries.map Prod.fst ++ [key] := by
  split_ifs with hkey
  · induction entries with
    | nil => cases hkey
    | cons e entries ih =>
      rw [insertEntry]
      by_cases he : e.1 = key
      · rw [if_pos (decide_eq_true he), List.map_cons, List.map_cons]
      · have hrest := (List.mem_cons.mp hkey).resolve_left (Ne.symm he)
        rw [if_neg (by simpa using he), List.map_cons, List.map_cons, ih hrest]
  · rw [insertEntry_of_not_mem hkey, List.map_append, List.map_singleton]

/-- No key is repeated when an entry is inserted. -/
theorem nodup_keys_insertEntry {entries : List (κ × α)} (h : (entries.map Prod.fst).Nodup)
    (key : κ) (value : α) :
    ((insertEntry (fun s t => s = t) key value entries).map Prod.fst).Nodup := by
  rw [keys_insertEntry]
  split_ifs with hkey
  · exact h
  · exact List.nodup_append.mpr ⟨h, List.nodup_singleton key, fun k hk k' hk' heq =>
      hkey (List.mem_singleton.mp hk' ▸ heq ▸ hk)⟩

/-- A mapping has each of its keys once. -/
theorem nodup_keys_distinctEntries (entries : List (κ × α)) :
    ((distinctEntries (fun s t => s = t) entries).map Prod.fst).Nodup := by
  have hfold : ∀ rest entered : List (κ × α), (entered.map Prod.fst).Nodup →
      ((rest.foldl (fun d e => insertEntry (fun s t => s = t) e.1 e.2 d) entered).map
        Prod.fst).Nodup := by
    intro rest
    induction rest with
    | nil => exact fun entered h => h
    | cons e rest ih => exact fun entered h => ih _ (nodup_keys_insertEntry h e.1 e.2)
  exact hfold entries [] List.nodup_nil

/-- Entries with distinct keys make a mapping as they stand. -/
theorem distinctEntries_of_nodup {entries : List (κ × α)} (h : (entries.map Prod.fst).Nodup) :
    distinctEntries (fun s t => s = t) entries = entries := by
  have hfold : ∀ rest entered : List (κ × α), ((entered ++ rest).map Prod.fst).Nodup →
      rest.foldl (fun d e => insertEntry (fun s t => s = t) e.1 e.2 d) entered
        = entered ++ rest := by
    intro rest
    induction rest with
    | nil => exact fun entered _ => (List.append_nil entered).symm
    | cons e rest ih =>
      intro entered hkeys
      have hnew : e.1 ∉ entered.map Prod.fst := by
        rw [List.map_append, List.nodup_append] at hkeys
        exact fun hmem => hkeys.2.2 e.1 hmem e.1 List.mem_cons_self rfl
      rw [List.append_cons] at hkeys
      rw [List.foldl_cons, insertEntry_of_not_mem hnew, ih _ hkeys, ← List.append_cons]
  exact hfold entries [] h

end Entries

end Value

end Ostinato

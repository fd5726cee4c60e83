import Ostinato.Text.Basic
import Ostinato.Value.Calendar

/-!
# Document values

What a descriptor file holds before it is checked: the values of a data document. A mapping keeps
its entries in the order in which their keys came first.

A collection can stand in several places of a document, and even inside itself. Such a document
keeps its collections in a pool, and its values refer to them by their numbers.
-/

namespace Ostinato

/-- A document value. -/
inductive Value
  | null
  | bool (b : Bool)
  | int (i : Int)
  | float (x : Binary64)
  | text (t : Text)
  | list (items : List Value)
  | dict (entries : List (Value × Value))
  | bytes (data : List UInt8)
  | date (d : Date)
  | moment (m : Moment)
  /-- A set may be gone through in any order; here it is that in which its members are written. -/
  | set (members : List Value)
  | pair (first second : Value)
  /-- The collection with a number in the pool. -/
  | shared (n : Nat)
  deriving Repr, Inhabited

/-- How many texts of values may be asked for inside one another, where nothing else is said. -/
def maxDepth : Nat := 980

/-- The collections of a document by their numbers, and the room for the texts of its values. -/
structure Pool where
  collections : Array Value
  /-- How many texts of values may be asked for inside the text of a value, one inside the other. -/
  room : Nat
  deriving Repr

namespace Pool

/-- No collections. -/
def empty : Pool := ⟨#[], maxDepth⟩

/-- The collection with a number. -/
def get (p : Pool) (n : Nat) : Value := (p.collections[n]?).getD .null

/-- What a value refers to, if it is a reference, and else the value itself. -/
def resolve (p : Pool) : Value → Value
  | .shared n => p.get n
  | v => v

end Pool

namespace Value

/-- The number that a value stands for as a key. -/
def number? : Value → Option Rat
  | bool b => some (if b then 1 else 0)
  | int i => some i
  | float x => x.toRat?
  | _ => none

/-- Whether a value can be a key: collections cannot. -/
def isKey : Value → Bool
  | list _ | dict _ | set _ | shared _ => false
  | pair a b => a.isKey && b.isKey
  | _ => true

/-- Whether two keys are the same key. Numbers and booleans are compared as numbers, moments as
instants; what is no number is not even the same as itself. -/
def sameKey : Value → Value → Bool
  | null, null => true
  | text s, text t => s = t
  | bytes a, bytes b => a = b
  | date d, date e => d = e
  | moment m, moment n => m.sameInstant n
  | pair a b, pair c d => a.sameKey c && b.sameKey d
  | float (.infinite s), float (.infinite t) => s = t
  | v, w =>
    match v.number?, w.number? with
    | some p, some q => p = q
    | _, _ => false

section Entries

variable {κ α : Type} (same : κ → κ → Bool)

/-- Sets the value of a key: a new key goes to the end, an old one keeps its place and spelling. -/
def insertEntry (key : κ) (value : α) : List (κ × α) → List (κ × α)
  | [] => [(key, value)]
  | (k, v) :: rest =>
    if same k key then (k, value) :: rest else (k, v) :: insertEntry key value rest

/-- The entries without repeated keys; of entries with one key the last value wins. -/
def distinctEntries (entries : List (κ × α)) : List (κ × α) :=
  entries.foldl (fun d e => insertEntry same e.1 e.2 d) []

end Entries

/-- The mapping with the given entries. -/
def dictOf (entries : List (Value × Value)) : Value := dict (distinctEntries sameKey entries)

/-- The value under a text key. -/
def lookup (name : Text) : List (Value × Value) → Option Value
  | [] => none
  | (text t, v) :: rest => if t = name then some v else lookup name rest
  | _ :: rest => lookup name rest

end Value

end Ostinato

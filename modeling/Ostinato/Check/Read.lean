import Ostinato.Check.Issue
import Ostinato.Text.Encoding
import Ostinato.Text.Integer

/-!
# Lenient readings

How a document value is taken for a text, an integer, a list or a mapping. Texts are read from
nothing but text and bytes; integers are read from whatever stands for one without loss. Where a
collection may stand, a reference to one in the pool is followed.
-/

namespace Ostinato.Value

open Checked (refuse under both)

/-- A text; bytes count as their UTF-8. -/
def asText : Value → Checked Text
  | text t => .ok t
  | bytes data =>
    match Text.decodeUtf8 data with
    | some cs => .ok (.ofChars cs)
    | none => refuse .notUnicode
  | _ => refuse .notText

/-! ## Integers -/

/-- The 64-bit integers are those below this bound and not below its negation. -/
def wordBound : Int := 0x8000000000000000

/-- Whether an integer is one of the 64-bit integers. -/
def fitsWord (i : Int) : Bool := -wordBound ≤ i && i < wordBound

/-- The integer in a text. -/
def integerOfText (cs : List Char) : Checked Int :=
  match Text.readLoose cs with
  | .ok i => .ok i
  | .error .unreadable => refuse .unreadable
  | .error .tooLong => refuse .oversized

/-- The integer that a double is. Doubles on or beyond the bounds of the 64-bit integers count as
too large. -/
def integerOfDouble (x : Binary64) : Checked Int :=
  match x.toRat? with
  | none => refuse .notFinite
  | some q =>
    if q.den ≠ 1 then refuse .fractional
    else if -wordBound < q.num ∧ q.num < wordBound then .ok q.num
    else refuse .oversized

/-- An integer. -/
def asInteger : Value → Checked Int
  | int i => .ok i
  | bool b => .ok (if b then 1 else 0)
  | float x => integerOfDouble x
  | text t =>
    match t.chars? with
    | some cs => integerOfText cs
    | none => refuse .notUnicode
  | bytes data =>
    match Text.decodeUtf8 data with
    | some cs => integerOfText cs
    | none => refuse .unreadable
  | _ => refuse .notInteger

/-- An integer no smaller than a bound. -/
def atLeast (least : Int) (i : Int) : Checked Int :=
  if i < least then refuse (.tooSmall least) else .ok i

/-- An integer no greater than a bound. -/
def atMost (greatest : Int) (i : Int) : Checked Int :=
  if greatest < i then refuse (.tooLarge greatest) else .ok i

/-- An integer between two bounds. -/
def asIntegerIn (least greatest : Int) (v : Value) : Checked Int :=
  (v.asInteger.andThen (atMost greatest)).andThen (atLeast least)

/-! ## Collections -/

/-- Null, or what a reading gives. -/
def asOptional {α : Type} (read : Value → Checked α) : Value → Checked (Option α)
  | null => .ok none
  | v => (read v).map some

/-- The elements from an index on. -/
def elementsFrom {α : Type} (read : Value → Checked α) : Nat → List Value → Checked (List α)
  | _, [] => .ok []
  | n, v :: vs => both List.cons (under (.index n) (read v)) (elementsFrom read (n + 1) vs)

/-- A list; a set counts as the list of its members, in the order in which they are written, and a
pair as one of two. -/
def asList {α : Type} (pool : Pool) (read : Value → Checked α) (v : Value) : Checked (List α) :=
  match pool.resolve v with
  | list items => elementsFrom read 0 items
  | set members => elementsFrom read 0 members
  | pair a b => elementsFrom read 0 [a, b]
  | _ => refuse .notList

/-- A text as it stands in a way: three replacement characters for each half of a pair. -/
def shownText (t : Text) : String :=
  String.ofList (t.points.flatMap fun p =>
    match p with
    | .char c => [c]
    | .half n => List.replicate 3 (CodePoint.half n).toChar)

/-- The step to the value under a key. -/
def keyStep : Value → Step
  | text t => .name (shownText t)
  | bool b => .index (if b then 1 else 0)
  | int i => if fitsWord i then .index i else .name (int i).description
  | v => .name v.description

/-- The entries of a mapping with text keys. -/
def textEntries {α : Type} (read : Value → Checked α) :
    List (Value × Value) → Checked (List (Text × α))
  | [] => .ok []
  | (k, v) :: rest =>
    both List.cons
      (both Prod.mk (under k.keyStep (under (.name "[key]") k.asText)) (under k.keyStep (read v)))
      (textEntries read rest)

/-- A mapping from texts; of entries with one key the last value wins. -/
def asTextDict {α : Type} (pool : Pool) (read : Value → Checked α) (v : Value) :
    Checked (List (Text × α)) :=
  match pool.resolve v with
  | dict entries => (textEntries read entries).map (distinctEntries fun s t => s = t)
  | _ => refuse .notDict

/-! ## Fields of a record -/

/-- The entries of a record that is written as a mapping. -/
def asRecord (pool : Pool) (name : String) (v : Value) : Checked (List (Value × Value)) :=
  match pool.resolve v with
  | dict entries => .ok entries
  | _ => refuse (.notRecord name)

/-- A field that has to be there, under one of some names; the first name that is there counts. -/
def required {α : Type} (read : Value → Checked α) (entries : List (Value × Value))
    (name : String) : List String → Checked α
  | [] => under (.name name) (refuse .missing)
  | n :: names =>
    match lookup n entries with
    | some v => under (.name n) (read v)
    | none => required read entries name names

/-- A field that may be left out. -/
def optional {α : Type} (read : Value → Checked α) (default : α) (entries : List (Value × Value)) :
    List String → Checked α
  | [] => .ok default
  | n :: names =>
    match lookup n entries with
    | some v => under (.name n) (read v)
    | none => optional read default entries names

end Ostinato.Value

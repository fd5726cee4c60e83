import Ostinato.Number.Fraction
import Ostinato.Text.Integer
import Ostinato.Text.Quoted
import Ostinato.Value.Basic

/-!
# The text of a value

`Value.quoted` is unambiguous and quotes every text; `Value.plain` is the value as it is shown, and
leaves a text as it is. A collection inside itself is shown as a mark of its shape. The text of a
collection asks for the texts of the values in it, and these can ask for others in turn, but only so
far (`Pool.room`). Two values have no text: an integer with too many digits, and a collection that
is nested too deeply, whether its parts stand in it or in the pool.
-/

namespace Ostinato

/-- Why a value has no text. -/
inductive Unwritable
  | tooManyDigits
  | tooDeep
  deriving DecidableEq, Repr

/-- An integer in decimal, if it has no more digits than are read back. -/
def writtenInteger (i : Int) : Except Unwritable (List Char) :=
  if Nat.pow 10 Text.maxDigits ≤ i.natAbs then .error .tooManyDigits else .ok (integerChars i)

/-- How many texts are asked for inside the text of a moment: that of its offset, and that of the
span of time in it, which is not written for the offset zero. -/
def Moment.depth (m : Moment) : Nat :=
  match m.offset with
  | none => 0
  | some o => if o = 0 then 1 else 2

namespace Value

/-- The pieces with a separator between them. -/
def joinChars (separator : List Char) (pieces : List (List Char)) : List Char :=
  (pieces.intersperse separator).flatten

/-- The mark of a collection inside itself. -/
def ellipsis : Value → List Char
  | list _ => "[...]".toList
  | set _ => "set(...)".toList
  | _ => "\x7b...\x7d".toList

section Quoted

variable (inner : Value → Except Unwritable (List Char))

/-- The text of an entry of a mapping, where `inner` gives the texts of values. -/
def quotedEntry (e : Value × Value) : Except Unwritable (List Char) := do
  let key ← inner e.1
  return key ++ ':' :: ' ' :: (← inner e.2)

/-- The unambiguous text of a value that is no reference, where `inner` gives the texts of the
values in it. A set asks for the text of the list of its members, and puts other brackets around
them. -/
def quotedWith (room : Nat) : Value → Except Unwritable (List Char)
  | null => .ok "None".toList
  | bool true => .ok "True".toList
  | bool false => .ok "False".toList
  | int i => writtenInteger i
  | float x => .ok x.chars
  | text t => .ok t.quotedChars
  | list items => do
    return '[' :: joinChars [',', ' '] (← items.mapM inner) ++ [']']
  | dict entries => do
    return '{' :: joinChars [',', ' '] (← entries.mapM (quotedEntry inner)) ++ ['}']
  | bytes data => .ok (Text.quotedBytes data)
  | date d => .ok d.describe
  | moment m => if room < m.depth then .error .tooDeep else .ok m.describe
  | set [] => .ok "set()".toList
  | set members => do
    return '{' :: (← inner (list members)).tail.dropLast ++ ['}']
  | pair a b => do
    let first ← inner a
    return '(' :: first ++ ',' :: ' ' :: (← inner b) ++ [')']
  | shared n => inner (shared n)

end Quoted

/-- The unambiguous text of a value inside the collections of a path, if as many texts as there is
room for may be asked for one inside the other, this one included. -/
def quotedWithin (pool : Pool) : Nat → List Nat → Value → Except Unwritable (List Char)
  | 0, _, _ => .error .tooDeep
  | room + 1, path, shared n =>
    if path.contains n then .ok (ellipsis (pool.get n))
    else (pool.get n).quotedWith (quotedWithin pool room (n :: path)) room
  | room + 1, path, v => v.quotedWith (quotedWithin pool room path) room

/-- The unambiguous text of a value. -/
def quoted (pool : Pool) (v : Value) : Except Unwritable String :=
  (v.quotedWithin pool (pool.room + 1) []).map String.ofList

/-- The unambiguous text of a value without references; what has none is named by its type. -/
def description (v : Value) : String :=
  match v.quoted .empty with
  | .ok s => s
  | .error .tooManyDigits => "<unprintable int object>"
  | .error .tooDeep => "<unprintable list object>"

/-- The text of a value as it is shown. -/
def plain (pool : Pool) : Value → Except Unwritable Text
  | text t => .ok t
  | date d => .ok (.ofChars d.chars)
  | moment m => .ok (.ofChars m.chars)
  | v => (v.quoted pool).map Text.ofString

end Value

end Ostinato

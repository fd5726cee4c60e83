/-!
# Paths

A path is a root and the names that lead on from it. Empty names and `.` do not count; `..` stays.
-/

namespace Ostinato

/-- Where a path starts: in the working directory, or at one of the two roots `/` and `//`. -/
inductive PathRoot
  | working
  | single
  | double
  deriving DecidableEq, Repr

/-- A path. -/
structure Path where
  root : PathRoot
  parts : List String
  deriving DecidableEq, Repr

namespace Path

/-- The working directory. -/
def here : Path := ⟨.working, []⟩

/-- A text cut at its slashes. -/
def cut : List Char → List (List Char)
  | [] => [[]]
  | c :: cs =>
    if c = '/' then [] :: cut cs
    else
      match cut cs with
      | part :: parts => (c :: part) :: parts
      | [] => [[c]]

/-- The root at the front of a text: three slashes or more are one. -/
def rootOf : List Char → PathRoot
  | '/' :: '/' :: '/' :: _ => .single
  | '/' :: '/' :: _ => .double
  | '/' :: _ => .single
  | _ => .working

/-- The path that a text spells. -/
def ofText (text : String) : Path :=
  let cs := text.toList
  ⟨rootOf cs, ((cut cs).map String.ofList).filter fun name => name ≠ "" && name ≠ "."⟩

/-- The text of a root. -/
def rootText : PathRoot → String
  | .working => ""
  | .single => "/"
  | .double => "//"

/-- The text of a path. -/
def text (p : Path) : String :=
  if p.root = .working ∧ p.parts = [] then "."
  else rootText p.root ++ String.intercalate "/" p.parts

/-- One path after another; a second one that starts at a root stands alone. -/
def join (p q : Path) : Path :=
  if q.root = .working then ⟨p.root, p.parts ++ q.parts⟩ else q

/-- The path of a name in a directory. -/
def child (p : Path) (name : String) : Path := ⟨p.root, p.parts ++ [name]⟩

/-- The last name, or nothing. -/
def name (p : Path) : String := p.parts.getLast?.getD ""

/-- The path without its last name; a root is its own parent. -/
def parent (p : Path) : Path := ⟨p.root, p.parts.dropLast⟩

/-- A name cut before its last point. A point at either end of the name does not count. -/
def cutSuffix (name : List Char) : List Char × List Char :=
  let after := (name.reverse.takeWhile (· ≠ '.')).length
  let before := name.length - (after + 1)
  if after = 0 ∨ name.length ≤ after + 1 then (name, [])
  else (name.take before, name.drop before)

/-- The last name from its last point on. -/
def suffix (p : Path) : String := String.ofList (cutSuffix p.name.toList).2

/-- The last name up to its last point. -/
def stem (p : Path) : String := String.ofList (cutSuffix p.name.toList).1

end Path

end Ostinato

import Ostinato.Text.Integer
import Ostinato.Yaml.Token.Name

/-!
# Block scalars

A block scalar is the indented text below its header. In a literal one every line break stays; in a
folded one a single break between two lines that start with no blank becomes a space. The header
says what happens to the breaks at the end. Each function gives, with what it has read, the number
of characters that it has taken.
-/

namespace Ostinato.Yaml

/-- What happens to the line breaks at the end of a block scalar. -/
inductive Chomping
  /-- One break stays. -/
  | clip
  /-- None stays. -/
  | strip
  /-- All stay. -/
  | keep
  deriving DecidableEq, Repr

/-- The chomping that an indicator asks for. -/
def Chomping.ofChar? : Char → Option Chomping
  | '+' => some .keep
  | '-' => some .strip
  | _ => none

/-- The indentation that a digit asks for. -/
def blockIndent (c : Char) : Except Fault Nat :=
  match Text.asciiDigit? c with
  | some 0 => refuse "a block scalar cannot be indented by nothing"
  | some d => .ok d
  | none => refuse "a block scalar is indented by a digit"

/-- The header of a block scalar. -/
structure BlockHeader where
  chomping : Chomping
  /-- The indentation below that of the block around the scalar, if the header gives it. -/
  increment : Option Nat

/-- The indicators of a block scalar, in either order, and the number of characters. -/
def lexIndicators : List Char → Except Fault (BlockHeader × Nat)
  | [] => .ok (⟨.clip, none⟩, 0)
  | c :: rest =>
    match Chomping.ofChar? c with
    | some chomping =>
      match rest.head?.filter Char.isDigit with
      | some d => (blockIndent d).map fun n => (⟨chomping, some n⟩, 2)
      | none => .ok (⟨chomping, none⟩, 1)
    | none =>
      if c.isDigit then
        match rest.head?.bind Chomping.ofChar? with
        | some chomping => (blockIndent c).map fun n => (⟨chomping, some n⟩, 2)
        | none => (blockIndent c).map fun n => (⟨.clip, some n⟩, 1)
      else .ok (⟨.clip, none⟩, 0)

/-- The header of a block scalar with the rest of its line, and the number of characters. -/
def lexBlockHeader (cs : List Char) : Except Fault (BlockHeader × Nat) := do
  let (header, m) ← lexIndicators cs
  let rest := cs.drop m
  if atSpaceOrBreak rest then
    let n ← lexLineEnd rest
    return (header, m + n)
  else refuse "a block scalar header has a strange character"

/-- Line breaks and the spaces among them. -/
structure BlockGap where
  breaks : List Char
  /-- The rightmost column that the spaces reach. -/
  widest : Nat
  /-- The column at the end. -/
  column : Nat
  /-- The number of characters. -/
  taken : Nat

/-- A gap behind one more space or break. -/
def BlockGap.behind (breaks : List Char) (column : Nat) (g : BlockGap) : BlockGap :=
  { g with breaks := breaks ++ g.breaks, widest := max column g.widest, taken := g.taken + 1 }

/-- Breaks and spaces from a column on, where a line is given no more spaces than `limit` says. -/
def blockGap (limit : Option Nat) : Nat → List Char → BlockGap
  | column, [] => ⟨[], column, column, 0⟩
  | column, c :: cs =>
    if c = ' ' ∧ limit.all (column < ·) then (blockGap limit (column + 1) cs).behind [] column
    else if isBreak c then (blockGap limit 0 cs).behind [breakChar c] column
    else ⟨[], column, column, 0⟩

/-- The lines of a block scalar: their text, the last line's break, and the breaks after it. -/
structure BlockBody where
  text : List Char
  lastBreak : List Char
  trailing : List Char
  /-- The number of characters. -/
  taken : Nat

/-- Reads the lines that start at column `indent`, after the gap in front of the first. Each step
takes at least one character. -/
def lexBlockBody (folded : Bool) (indent : Nat) : Nat → BlockGap → List Char → BlockBody
  | 0, lead, _ => ⟨[], [], lead.breaks, 0⟩
  | fuel + 1, lead, cs =>
    if lead.column ≠ indent ∨ cs.isEmpty then ⟨[], [], lead.breaks, 0⟩
    else
      let line := cs.takeWhile (!isBreak ·)
      let (lineBreak, rest) := takeBreak (cs.drop line.length)
      let gap := blockGap (some indent) 0 rest
      let rest := rest.drop gap.taken
      let taken := line.length + lineBreak.length + gap.taken
      if gap.column ≠ indent ∨ rest.isEmpty then
        ⟨lead.breaks ++ line, lineBreak, gap.breaks, taken⟩
      else
        let folds := folded && lineBreak = ['\n'] && !endsOr isSpace line && !endsOr isSpace rest
        let joint := if !folds then lineBreak else if gap.breaks.isEmpty then [' '] else []
        let body := lexBlockBody folded indent fuel gap rest
        { body with
          text := lead.breaks ++ line ++ joint ++ body.text, taken := taken + body.taken }

/-- A block scalar, after its indicator, inside a block of indentation `outer`, in a text with at
most `size` characters. -/
def lexBlock (folded : Bool) (outer : Int) (size : Nat) (cs : List Char) :
    Except Fault (Token × Nat) := do
  let (header, m) ← lexBlockHeader cs
  let least := (max (outer + 1) 1).toNat
  let given := header.increment.map fun d => least + d - 1
  let rest := cs.drop m
  let lead := blockGap given 0 rest
  let indent := given.getD (max least lead.widest)
  let body := lexBlockBody folded indent (size + 1) lead (rest.drop lead.taken)
  let ending :=
    match header.chomping with
    | .clip => body.lastBreak
    | .strip => []
    | .keep => body.lastBreak ++ body.trailing
  return (.scalar (.ofChars (body.text ++ ending)) false, m + lead.taken + body.taken)

end Ostinato.Yaml

import Ostinato.Yaml.Token.Basic

/-!
# Plain scalars

A plain scalar may go on over several lines; a single line break between two of its lines becomes a
space. Where it ends depends on whether it stands inside brackets or braces.
-/

namespace Ostinato.Yaml

/-- The characters up to the next blank or the next indicator that ends a plain scalar. -/
def plainChunk (flow : Bool) : List Char → List Char × List Char
  | [] => ([], [])
  | c :: cs =>
    if isSpace c || isBreak c ||
        (c = ':' && (atBlank cs || (flow && endsOr (",[]\x7b\x7d".toList.contains ·) cs))) ||
        (flow && ",?[]\x7b\x7d".toList.contains c) then
      ([], c :: cs)
    else
      let (chunk, rest) := plainChunk flow cs
      (c :: chunk, rest)

/-- What stands between two chunks of a plain scalar. -/
structure PlainGap where
  /-- What the gap contributes to the text; nothing where a document ends. -/
  joint : List Char
  /-- Whether the gap holds a line break. -/
  crossesLine : Bool
  /-- The column after the gap, if it crosses a line. -/
  column : Nat
  /-- The number of characters in the gap. -/
  taken : Nat

/-- Breaks and spaces at the start of a line, from a column on: the breaks, the column at the end
and the number of characters; `none` where a document ends. -/
def plainBreaks : Nat → List Char → Option (List Char) × Nat × Nat
  | column, [] => (some [], column, 0)
  | column, c :: cs =>
    if c = ' ' then
      let (breaks, column, n) := plainBreaks (column + 1) cs
      (breaks, column, n + 1)
    else if isBreak c then
      if atSeparator cs then (none, 0, 1)
      else
        let (breaks, column, n) := plainBreaks 0 cs
        (breaks.map (breakChar c :: ·), column, n + 1)
    else (some [], column, 0)

/-- The gap after a chunk. -/
def plainGap (cs : List Char) : PlainGap :=
  let spaces := cs.takeWhile (· = ' ')
  let here : PlainGap := ⟨spaces, false, 0, spaces.length⟩
  match cs.dropWhile (· = ' ') with
  | [] => here
  | c :: rest =>
    let toBreak := spaces.length + 1
    if !isBreak c then here
    else if atSeparator rest then ⟨[], true, 0, toBreak⟩
    else
      match plainBreaks 0 rest with
      | (none, column, n) => ⟨[], true, column, toBreak + n⟩
      | (some breaks, column, n) =>
        let joint :=
          if breakChar c ≠ '\n' then [breakChar c] else if breaks.isEmpty then [' '] else []
        ⟨joint ++ breaks, true, column, toBreak + n⟩

/-- A plain scalar as far as it goes. -/
structure PlainText where
  text : List Char
  /-- Whether the blanks after it cross a line. -/
  crossesLine : Bool
  /-- The number of its characters, with the blanks after it. -/
  taken : Nat

/-- A plain scalar. Outside brackets a line that starts left of `indent` ends it. Each step takes at
least one character. -/
def lexPlainText (flow : Bool) (indent : Int) : Nat → List Char → PlainText
  | 0, _ => ⟨[], false, 0⟩
  | fuel + 1, cs =>
    let (chunk, rest) := plainChunk flow cs
    let gap := plainGap rest
    let taken := chunk.length + gap.taken
    let next := rest.drop gap.taken
    if gap.joint.isEmpty || next.head? = some '#' ||
        (!flow && gap.crossesLine && decide ((gap.column : Int) < indent)) ||
        (plainChunk flow next).1.isEmpty then
      ⟨chunk, gap.crossesLine, taken⟩
    else
      let more := lexPlainText flow indent fuel next
      ⟨chunk ++ gap.joint ++ more.text, more.crossesLine, taken + more.taken⟩

end Ostinato.Yaml

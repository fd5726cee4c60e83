import Ostinato.Text.Encoding
import Ostinato.Yaml.Cursor

/-!
# Text as it comes in

A file is not taken in at once. Its bytes are decoded in runs, and its characters are handed on in
pieces. What is wrong in a run or in a piece shows when that part is asked for, and not before; a
fault in front of it comes first.
-/

namespace Ostinato.Yaml

/-- The characters of a file in front of the first piece that cannot be had. -/
structure Source where
  chars : List Char
  /-- Why nothing follows; at the end of the file nothing is wrong. -/
  fault : Option Fault
  deriving Repr

namespace Source

/-- A run has at least this many bytes, unless the file ends. -/
def runSize : Nat := 8192

/-- A piece has this many characters, unless the file ends. -/
def pieceSize : Nat := 4096

/-- A file that is being taken in. -/
structure Feed where
  /-- The bytes behind the last run. -/
  bytes : List UInt8
  /-- The start of a sequence that goes on in the next run. -/
  held : List UInt8
  /-- Whether the last run ended in a carriage return, which may be half of a break. -/
  carriage : Bool
  /-- The characters that have been decoded and not handed on. -/
  ready : List Char
  /-- The sizes of the last run in bytes and in characters. -/
  lastRun : Nat × Nat

/-- The size of the next run, when so many characters are wanted: what the last one lets expect. -/
def Feed.nextSize (f : Feed) (wanted : Nat) : Nat :=
  let size := f.lastRun.1 * wanted / f.lastRun.2
  if size < runSize then runSize else size

/-- Decodes a run; says whether it has brought anything. Behind the last byte no sequence may be
open. -/
def Feed.run (f : Feed) (wanted : Nat) : Except Fault (Feed × Bool) :=
  let size := f.nextSize wanted
  let taken := f.bytes.take size
  let final := taken.isEmpty
  let (whole, held) := if final then (f.held, []) else Text.cutUtf8 (f.held ++ taken)
  match Text.decodeUtf8 whole with
  | none => .error .encoding
  | some cs =>
    let cs := if f.carriage && (final || !cs.isEmpty) then '\r' :: cs else cs
    let broken := !final && cs.getLast? = some '\r'
    let carriage := broken || (f.carriage && !final && cs.isEmpty)
    let cs := Text.unifyBreaks (if broken then cs.dropLast else cs)
    .ok (⟨f.bytes.drop size, held, carriage, f.ready ++ cs, (taken.length, cs.length)⟩,
      !final || !cs.isEmpty)

/-- Hands on so many characters, or what is left of the file. Each run but the last takes at least
one byte, so their number bounds the runs. -/
def Feed.take : Nat → Nat → Feed → Except Fault (List Char × Feed)
  | 0, _, f => .ok ([], f)
  | fuel + 1, wanted, f => do
    let piece := f.ready.take wanted
    let f := { f with ready := f.ready.drop wanted }
    let missing := wanted - piece.length
    if missing = 0 then return (piece, f)
    else
      let (f, more) ← f.run missing
      if more then
        let (rest, f) ← Feed.take fuel missing f
        return (piece ++ rest, f)
      else return (piece, f)

/-- Hands on a piece. -/
def Feed.piece (f : Feed) : Except Fault (List Char × Feed) :=
  Feed.take (f.bytes.length + 2) pieceSize f

/-- Refuses a piece with a character that no document may hold. -/
def checkPiece (piece : List Char) : Except Fault Unit :=
  if piece.all isAllowed then .ok ()
  else .error (.document "a character is not allowed")

/-- The pieces of a file, each joined to those behind it. Each but the last has a character, so the
bytes bound their number. -/
def pieces : Nat → Feed → Source
  | 0, _ => ⟨[], none⟩
  | fuel + 1, f =>
    match f.piece with
    | .error fault => ⟨[], some fault⟩
    | .ok ([], _) => ⟨[], none⟩
    | .ok (piece, f) =>
      match checkPiece piece with
      | .error fault => ⟨[], some fault⟩
      | .ok () =>
        let rest := pieces fuel f
        ⟨piece ++ rest.chars, rest.fault⟩

/-- The first two pieces of a file are taken in together. -/
def opening (f : Feed) : Except Fault (List Char × Feed) := do
  let (first, f) ← f.piece
  if first.isEmpty then return ([], f)
  else
    let (second, f) ← f.piece
    checkPiece (first ++ second)
    return (first ++ second, f)

/-- The text of a file. -/
def ofBytes (data : List UInt8) : Source :=
  match opening ⟨data, [], false, [], (0, 0)⟩ with
  | .error fault => ⟨[], some fault⟩
  | .ok (front, f) =>
    let rest := pieces (f.bytes.length + f.ready.length + 2) f
    ⟨front ++ rest.chars, rest.fault⟩

end Source

end Ostinato.Yaml

import Ostinato.Yaml.Source
import Ostinato.Yaml.Token.Block
import Ostinato.Yaml.Token.Plain
import Ostinato.Yaml.Token.Quoted

/-!
# From text to tokens

The lexer takes one token from the text at a time. It keeps the indentation of the open blocks, and
for each level of brackets the place where a *simple key* may have started: a key without an
indicator, which shows itself as a key only by the colon after it. When the colon comes, the key's
token, and the start of its block if it opens one, are put in front of it. So a token is certain
only when no simple key can start in front of it any more; the lexer goes no further than it must
for that, and what is wrong behind does not show.
-/

namespace Ostinato.Yaml

/-- A place where a simple key may have started. -/
structure KeyPlace where
  /-- The number of tokens in front of it. -/
  tokens : Nat
  position : Position
  /-- Whether nothing but a key can stand there. -/
  required : Bool
  deriving Repr

/-- A simple key stands on one line and is no longer than this. -/
def maxKeyLength : Nat := 1024

/-- The state of the lexer. -/
structure Lexer where
  cursor : Cursor
  /-- The number of characters of the text. -/
  size : Nat
  /-- Why the text cannot be had beyond its last character. -/
  fault : Option Fault
  /-- The tokens that have not been handed on. -/
  queue : List Token
  /-- The number of tokens that have been handed on. -/
  passed : Nat
  /-- The indentation of the innermost open block; -1 outside all blocks. -/
  indent : Int
  /-- The indentations of the blocks around it. -/
  outerIndents : List Int
  keyAllowed : Bool
  /-- Where a simple key may have started on the innermost level of brackets. -/
  keyPlace : Option KeyPlace
  /-- The same for the levels around it. -/
  outerKeyPlaces : List (Option KeyPlace)
  finished : Bool

namespace Lexer

/-- The lexer in front of a text. -/
def start (source : Source) : Lexer :=
  ⟨.start source.chars, source.chars.length, source.fault, [], 0, -1, [], true, none, [], false⟩

/-- Whether brackets or braces are open. -/
def inFlow (l : Lexer) : Bool := !l.outerKeyPlaces.isEmpty

/-- The number of tokens so far. -/
def count (l : Lexer) : Nat := l.passed + l.queue.length

/-- Adds a token. -/
def push (l : Lexer) (t : Token) : Lexer := { l with queue := l.queue ++ [t] }

/-- Adds a token behind the first `n`. -/
def pushAt (l : Lexer) (n : Nat) (t : Token) : Lexer :=
  let earlier := n - l.passed
  { l with queue := l.queue.take earlier ++ t :: l.queue.drop earlier }

/-- Moves over some characters. -/
def skip (l : Lexer) (n : Nat) : Lexer := { l with cursor := l.cursor.skip n }

/-! ## Simple keys -/

/-- Whether a place can no longer be that of a simple key that ends here. -/
def isStale (l : Lexer) (k : KeyPlace) : Bool :=
  k.position.line ≠ l.cursor.position.line ||
    maxKeyLength < l.cursor.position.index - k.position.index

/-- Forgets a place that has become stale; one that had to be a key is an error. -/
def refresh (l : Lexer) : Option KeyPlace → Except Fault (Option KeyPlace)
  | none => .ok none
  | some k =>
    if !l.isStale k then .ok (some k)
    else if k.required then refuse "a key is not followed by a colon"
    else .ok none

/-- Forgets the stale places on all levels. -/
def refreshAll (l : Lexer) : Except Fault Lexer := do
  let place ← l.refresh l.keyPlace
  let outer ← l.outerKeyPlaces.mapM l.refresh
  return { l with keyPlace := place, outerKeyPlaces := outer }

/-- Forgets the place on the innermost level; if it had to be a key, that is an error. -/
def dropKey (l : Lexer) : Except Fault Lexer :=
  if l.keyPlace.any (·.required) then refuse "a key is not followed by a colon"
  else .ok { l with keyPlace := none }

/-- Notes that a simple key may start here. -/
def saveKey (l : Lexer) : Except Fault Lexer := do
  if l.keyAllowed then
    let required := !l.inFlow && decide (l.indent = l.cursor.position.column)
    let l ← l.dropKey
    return { l with keyPlace := some ⟨l.count, l.cursor.position, required⟩ }
  else return l

/-! ## Indentation -/

/-- Closes the blocks that are indented further than a column. -/
def unwindFrom (column : Int) : List Int → Lexer → Lexer
  | [], l => l
  | outer :: rest, l =>
    if column < l.indent then
      unwindFrom column rest { l.push .blockEnd with indent := outer, outerIndents := rest }
    else l

/-- Closes the blocks that are indented further than a column; inside brackets none is. -/
def unwind (l : Lexer) (column : Int) : Lexer :=
  if l.inFlow then l else unwindFrom column l.outerIndents l

/-- Whether a block that starts at a column is a new one. -/
def opensBlock (l : Lexer) (column : Nat) : Bool := l.indent < column

/-- Indents to a column. -/
def addIndent (l : Lexer) (column : Nat) : Lexer :=
  { l with indent := column, outerIndents := l.indent :: l.outerIndents }

/-! ## One token -/

/-- Moves over spaces, comments and line breaks. Outside brackets a key may start on a new line. -/
def skipBlanks : Nat → Lexer → Lexer
  | 0, l => l
  | fuel + 1, l =>
    let l := { l with cursor := l.cursor.skipWhile (· = ' ') }
    let l := if l.cursor.rest.head? = some '#' then
        { l with cursor := l.cursor.skipWhile (!isBreak ·) } else l
    if !l.cursor.rest.isEmpty && endsOr isBreak l.cursor.rest then
      skipBlanks fuel { l.skip 1 with keyAllowed := l.keyAllowed || !l.inFlow }
    else l

/-- Moves to the next token. A byte order mark at the very start is no part of the text. -/
def toNext (l : Lexer) : Lexer :=
  let l := if l.cursor.position.index = 0 ∧ l.cursor.rest.head? = some '\uFEFF' then l.skip 1 else l
  l.skipBlanks (l.size + 1)

/-- The end of the text. -/
def finish (l : Lexer) : Except Fault Lexer := do
  let l ← (l.unwind (-1)).dropKey
  return { l.push .streamEnd with keyAllowed := false, finished := true }

/-- A directive. -/
def directive (l : Lexer) : Except Fault Lexer := do
  let l ← (l.unwind (-1)).dropKey
  let (d, taken) ← lexDirective (l.cursor.rest.drop 1)
  return { (l.push (.directive d)).skip (taken + 1) with keyAllowed := false }

/-- The mark of a document's start or end. -/
def documentMark (l : Lexer) (t : Token) : Except Fault Lexer := do
  let l ← (l.unwind (-1)).dropKey
  return { (l.push t).skip 3 with keyAllowed := false }

/-- An opening bracket or brace. -/
def openFlow (l : Lexer) (t : Token) : Except Fault Lexer := do
  let l ← l.saveKey
  return { (l.push t).skip 1 with
    keyAllowed := true, keyPlace := none, outerKeyPlaces := l.keyPlace :: l.outerKeyPlaces }

/-- A closing bracket or brace. -/
def closeFlow (l : Lexer) (t : Token) : Except Fault Lexer := do
  let l ← l.dropKey
  match l.outerKeyPlaces with
  | [] => refuse "a bracket is closed that is not open"
  | place :: outer =>
    return { (l.push t).skip 1 with
      keyAllowed := false, keyPlace := place, outerKeyPlaces := outer }

/-- A comma between brackets. -/
def flowEntry (l : Lexer) : Except Fault Lexer := do
  let l ← { l with keyAllowed := true }.dropKey
  return (l.push .flowEntry).skip 1

/-- The dash in front of an element. -/
def blockEntry (l : Lexer) : Except Fault Lexer := do
  let column := l.cursor.position.column
  let l ←
    if l.inFlow then pure l
    else if !l.keyAllowed then refuse "an element cannot start here"
    else if l.opensBlock column then pure ((l.addIndent column).push .blockSequenceStart)
    else pure l
  let l ← { l with keyAllowed := true }.dropKey
  return (l.push .blockEntry).skip 1

/-- The question mark in front of a key. -/
def explicitKey (l : Lexer) : Except Fault Lexer := do
  let column := l.cursor.position.column
  let l ←
    if l.inFlow then pure l
    else if !l.keyAllowed then refuse "a key cannot start here"
    else if l.opensBlock column then pure ((l.addIndent column).push .blockMappingStart)
    else pure l
  let l ← { l with keyAllowed := !l.inFlow }.dropKey
  return (l.push .key).skip 1

/-- The colon in front of a value. It makes the simple key before it, if there may be one, a key. -/
def valueMark (l : Lexer) : Except Fault Lexer := do
  match l.keyPlace with
  | some k =>
    let opens := !l.inFlow && l.opensBlock k.position.column
    let l := { l.pushAt k.tokens .key with keyPlace := none, keyAllowed := false }
    let l := if opens then (l.addIndent k.position.column).pushAt k.tokens .blockMappingStart else l
    return (l.push .value).skip 1
  | none =>
    let column := l.cursor.position.column
    let l ←
      if l.inFlow then pure l
      else if !l.keyAllowed then refuse "a value cannot start here"
      else if l.opensBlock column then pure ((l.addIndent column).push .blockMappingStart)
      else pure l
    let l ← { l with keyAllowed := !l.inFlow }.dropKey
    return (l.push .value).skip 1

/-- A token that a simple key may start with, read by `lex` from the text after `n` characters. -/
def keyStart (l : Lexer) (n : Nat) (lex : List Char → Except Fault (Token × Nat)) :
    Except Fault Lexer := do
  let l ← l.saveKey
  let (t, taken) ← lex (l.cursor.rest.drop n)
  return { (l.push t).skip (n + taken) with keyAllowed := false }

/-- A block scalar. A simple key may follow it. -/
def blockScalar (l : Lexer) (folded : Bool) : Except Fault Lexer := do
  let l ← { l with keyAllowed := true }.dropKey
  let (t, taken) ← lexBlock folded l.indent l.size (l.cursor.rest.drop 1)
  return (l.push t).skip (taken + 1)

/-- A plain scalar. A simple key may follow it if it ends on a new line. -/
def plainScalar (l : Lexer) : Except Fault Lexer := do
  let l ← l.saveKey
  let plain := lexPlainText l.inFlow (l.indent + 1) l.size l.cursor.rest
  return { (l.push (.scalar (.ofChars plain.text) true)).skip plain.taken with
    keyAllowed := plain.crossesLine }

/-- Whether a plain scalar can start with a character before the given text. -/
def startsPlain (l : Lexer) (c : Char) (after : List Char) : Bool :=
  !(isSpace c || isBreak c || "-?:,[]\x7b\x7d#&*!|>\x27\"%@\x60".toList.contains c) ||
    (!atBlank after && (c = '-' || (!l.inFlow && (c = '?' || c = ':'))))

/-- Takes the token that starts here. -/
def token (l : Lexer) : Except Fault Lexer :=
  let l := l.unwind l.cursor.position.column
  let atLineStart := l.cursor.position.column = 0
  match l.cursor.rest with
  | [] => l.finish
  | c :: after =>
    if c = '%' ∧ atLineStart then l.directive
    else if atLineStart ∧ atMarks '-' (c :: after) then l.documentMark .documentStart
    else if atLineStart ∧ atMarks '.' (c :: after) then l.documentMark .documentEnd
    else if c = '[' then l.openFlow .flowSequenceStart
    else if c = '\x7b' then l.openFlow .flowMappingStart
    else if c = ']' then l.closeFlow .flowSequenceEnd
    else if c = '\x7d' then l.closeFlow .flowMappingEnd
    else if c = ',' then l.flowEntry
    else if c = '-' ∧ atBlank after then l.blockEntry
    else if c = '?' ∧ (l.inFlow ∨ atBlank after) then l.explicitKey
    else if c = ':' ∧ (l.inFlow ∨ atBlank after) then l.valueMark
    else if c = '*' then l.keyStart 1 fun cs => (lexName cs).map fun (name, n) => (.alias name, n)
    else if c = '&' then l.keyStart 1 fun cs => (lexName cs).map fun (name, n) => (.anchor name, n)
    else if c = '!' then l.keyStart 0 lexTag
    else if c = '|' ∧ !l.inFlow then l.blockScalar false
    else if c = '>' ∧ !l.inFlow then l.blockScalar true
    else if c = '\x27' ∨ c = '\x22' then l.keyStart 1 (lexQuoted (c = '\x22') l.size)
    else if l.startsPlain c after then l.plainScalar
    else refuse "a token cannot start with this character"

/-- Takes the next token from the text. Where the text cannot be had beyond its last character, a
token can be had only with the character behind it. -/
def step (l : Lexer) : Except Fault Lexer := do
  let l := l.toNext
  match l.fault with
  | none => (← l.refreshAll).token
  | some fault =>
    if l.cursor.rest.isEmpty then throw fault
    else
      let l ← l.refreshAll
      if (l.cursor.rest.drop 1).isEmpty then throw fault
      else
        match l.token with
        | .ok next => if next.cursor.rest.isEmpty then throw fault else return next
        | .error .ended => throw fault
        | .error e => throw e

/-! ## Handing tokens on -/

/-- Whether no simple key can start in front of the next token any more. -/
def isCertain (l : Lexer) : Bool :=
  !l.queue.isEmpty && !(l.keyPlace :: l.outerKeyPlaces).any fun k => k.any (·.tokens = l.passed)

/-- Takes tokens until the next one is certain. Each step but the last takes at least one
character. -/
def fillFor : Nat → Lexer → Except Fault Lexer
  | 0, l => .ok l
  | fuel + 1, l => do
    if l.finished then return l
    else
      let l ← if l.queue.isEmpty then pure l else l.refreshAll
      if l.isCertain then return l else fillFor fuel (← l.step)

/-- Takes tokens until the next one is certain. -/
def fill (l : Lexer) : Except Fault Lexer := l.fillFor (l.size + 2)

/-- The next token. -/
def next (l : Lexer) : Token := l.queue.headD .streamEnd

/-- Hands the next token on. -/
def pass (l : Lexer) : Lexer := { l with queue := l.queue.drop 1, passed := l.passed + 1 }

end Lexer

end Ostinato.Yaml

/-!
# Text as bytes

UTF-8 for what is read, Latin-1 for what is written into a MIDI file, and the three spellings of a
line break.
-/

namespace Ostinato.Text

/-- Whether a byte continues a UTF-8 sequence. -/
def isContinuation (b : UInt8) : Bool := 0x80 ≤ b && b ≤ 0xbf

/-- The six bits that a continuation byte carries. -/
def payload (b : UInt8) : Nat := b.toNat % 0x40

/-- Reads UTF-8. Overlong forms, surrogates and code points past the last one are refused. -/
def decodeUtf8 : List UInt8 → Option (List Char)
  | [] => some []
  | a :: r₁ =>
    if a < 0x80 then (decodeUtf8 r₁).map (Char.ofNat a.toNat :: ·)
    else
      match r₁ with
      | [] => none
      | b :: r₂ =>
        if !isContinuation b then none
        else if 0xc2 ≤ a && a ≤ 0xdf then
          (decodeUtf8 r₂).map (Char.ofNat (a.toNat % 0x20 * 0x40 + payload b) :: ·)
        else
          match r₂ with
          | [] => none
          | c :: r₃ =>
            if !isContinuation c then none
            else if 0xe0 ≤ a && a ≤ 0xef then
              let n := (a.toNat % 0x10 * 0x40 + payload b) * 0x40 + payload c
              if n < 0x800 ∨ 0xd800 ≤ n ∧ n ≤ 0xdfff then none
              else (decodeUtf8 r₃).map (Char.ofNat n :: ·)
            else
              match r₃ with
              | [] => none
              | d :: r₄ =>
                if !isContinuation d then none
                else if 0xf0 ≤ a && a ≤ 0xf4 then
                  let n :=
                    ((a.toNat % 0x8 * 0x40 + payload b) * 0x40 + payload c) * 0x40 + payload d
                  if n < 0x10000 ∨ 0x10ffff < n then none
                  else (decodeUtf8 r₄).map (Char.ofNat n :: ·)
                else none

/-- Whether a second byte can stand behind a first one. Half of a surrogate pair is refused for its
whole sequence and not yet for its second byte. -/
def canFollow (a b : UInt8) : Bool :=
  isContinuation b && (a ≠ 0xe0 || 0xa0 ≤ b) && (a ≠ 0xf0 || 0x90 ≤ b) && (a ≠ 0xf4 || b ≤ 0x8f)

/-- Whether some bytes are the start of a UTF-8 sequence that goes on behind them. -/
def isUtf8Start : List UInt8 → Bool
  | [a] => 0xc2 ≤ a && a ≤ 0xf4
  | [a, b] => 0xe0 ≤ a && a ≤ 0xf4 && canFollow a b
  | [a, b, c] => 0xf0 ≤ a && a ≤ 0xf4 && canFollow a b && isContinuation c
  | _ => false

/-- The bytes of whole UTF-8 sequences, and those at the end that start another one. -/
def cutUtf8 (data : List UInt8) : List UInt8 × List UInt8 :=
  let size := data.length
  match [1, 2, 3].find? fun n => isUtf8Start (data.drop (size - n)) with
  | some n => (data.take (size - n), data.drop (size - n))
  | none => (data, [])

/-- Makes every line break a line feed. -/
def unifyBreaks : List Char → List Char
  | '\r' :: '\n' :: cs => '\n' :: unifyBreaks cs
  | '\r' :: cs => '\n' :: unifyBreaks cs
  | c :: cs => c :: unifyBreaks cs
  | [] => []

/-- A character that Latin-1 can write: the character itself, or a question mark. -/
def latinChar (c : Char) : Char := if c.toNat ≤ 0xff then c else '?'

/-- The text as Latin-1 can write it. -/
def latin (s : String) : String := String.ofList (s.toList.map latinChar)

/-- The Latin-1 bytes of a text. -/
def latinBytes (s : String) : List UInt8 :=
  s.toList.map fun c => UInt8.ofNat (latinChar c).toNat

end Ostinato.Text
